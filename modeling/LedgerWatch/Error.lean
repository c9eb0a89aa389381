/-
  LedgerWatch.Error — what can go wrong, and how it is told.

  Only requests and settings are refused. Nothing the ledger reports is: what goes wrong
  there is counted and skipped.
-/

import LedgerWatch.Decimal.Layout
import LedgerWatch.Ident

namespace LedgerWatch

/-- A membership filter cannot be made. -/
inductive FilterError where
  | outOfRange (rate : Float)
  | parameters (reason : String)
  deriving DecidableEq

/-- A request or a configuration is refused. -/
inductive NotifyError where
  | subscribeToAllDisabled
  | sameAssetMarket (asset : AssetId)
  | invalidConfig (reason : String)
  | noRuntime
  | filter (error : FilterError)
  | limitExceeded (requested max : Nat)
  deriving DecidableEq

/-- A subscriber's transport could not take a batch. -/
inductive DeliveryError where
  | disconnected
  | transport (reason : String)
  deriving DecidableEq

/-- Logs or metrics cannot be set up. -/
inductive TelemetryError where
  | logging (reason : String)
  | metrics (reason : String)
  | config (reason : String)
  deriving DecidableEq

def FilterError.message : FilterError → String
  | .outOfRange rate =>
    "Invalid false positive rate: " ++ Decimal.Layout.plain.write rate ++ " (must be strictly between 0 and 1)"
  | .parameters reason => "Invalid filter parameters: " ++ reason

def NotifyError.message : NotifyError → String
  | .subscribeToAllDisabled => "Subscribe to all objects is disabled on this node"
  | .sameAssetMarket asset => "Cannot subscribe to market of asset " ++ asset.text ++ " against itself"
  | .invalidConfig reason => "Invalid notifier configuration: " ++ reason
  | .noRuntime => "Delivery pool must be started from within a tokio runtime"
  | .filter error => "Membership filter error: " ++ error.message
  | .limitExceeded requested max =>
    "Request limit exceeded: " ++ toString requested ++ " > " ++ toString max

def DeliveryError.message : DeliveryError → String
  | .disconnected => "Subscriber connection is closed"
  | .transport reason => "Transport error: " ++ reason

def TelemetryError.message : TelemetryError → String
  | .logging reason => "Failed to initialize logging: " ++ reason
  | .metrics reason => "Failed to initialize Prometheus metrics: " ++ reason
  | .config reason => "Invalid configuration: " ++ reason

end LedgerWatch
