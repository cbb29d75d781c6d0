import VehicleRelay.Json.Form
import VehicleRelay.Settings.Basic

/-!
# JSON forms of settings

Every field may be absent and then has its default.
-/

namespace VehicleRelay

open JsonForm (toJson)

instance : JsonForm ServerSettings where
  toJson settings := .ofFields [
    ("address", toJson settings.address),
    ("connect_timeout_ms", toJson settings.connectTimeout)]
  ofJson? json := do
    let record ← JsonRecord.ofJson? ["address", "connect_timeout_ms"] json
    let absent : ServerSettings := {}
    some {
      address := ← record.withDefault "address" absent.address
      connectTimeout := ← record.withDefault "connect_timeout_ms" absent.connectTimeout }

instance : JsonForm StreamSettings where
  toJson settings := .ofFields [
    ("reconnect", toJson settings.reconnect),
    ("initial_backoff_ms", toJson settings.initialBackoff),
    ("max_backoff_ms", toJson settings.maxBackoff)]
  ofJson? json := do
    let record ← JsonRecord.ofJson? ["reconnect", "initial_backoff_ms", "max_backoff_ms"] json
    let absent : StreamSettings := {}
    some {
      reconnect := ← record.withDefault "reconnect" absent.reconnect
      initialBackoff := ← record.withDefault "initial_backoff_ms" absent.initialBackoff
      maxBackoff := ← record.withDefault "max_backoff_ms" absent.maxBackoff }

instance : JsonForm GetSettings where
  toJson settings := .ofFields [("max_attempts", toJson settings.maxAttempts)]
  ofJson? json := do
    let record ← JsonRecord.ofJson? ["max_attempts"] json
    let absent : GetSettings := {}
    some { maxAttempts := ← record.withDefault "max_attempts" absent.maxAttempts }

instance : JsonForm Settings where
  toJson settings := .ofFields [
    ("server", toJson settings.server),
    ("stream", toJson settings.stream),
    ("get_values", toJson settings.getValues)]
  ofJson? json := do
    let record ← JsonRecord.ofJson? ["server", "stream", "get_values"] json
    some {
      server := ← record.withDefault "server" {}
      stream := ← record.withDefault "stream" {}
      getValues := ← record.withDefault "get_values" {} }

end VehicleRelay
