import Dxb.Json.Read
import Dxb.Liveness.Policy
import Dxb.Program.Effect
import Dxb.Text.Utf8

/-!
# Configuration

A configuration is a JSON file in which every field can be left out.
-/

namespace Dxb

structure Configuration where
  liveness : LivenessPolicy := {}
  decompile : Options := {}
deriving DecidableEq, Repr

/-- Why a configuration cannot be used. -/
inductive ConfigurationFault where
  /-- There is no such file, or it is not UTF-8. -/
  | unreadable
  | malformed
deriving DecidableEq, Repr

open JsonValue

def LivenessPolicy.ofJson? (v : JsonValue) : Option LivenessPolicy := do
  let d : LivenessPolicy := {}
  let fields ← v.fields? ["online_ttl_ms", "offline_ttl_ms", "ping_timeout_ms",
    "relay_ping_timeout_ms", "relays", "trace_timeout_ms", "main_node", "interface"]
  return {
    onlineTtl := ← field? fields "online_ttl_ms" d.onlineTtl nat64?
    offlineTtl := ← field? fields "offline_ttl_ms" d.offlineTtl nat64?
    pingTimeout := ← field? fields "ping_timeout_ms" d.pingTimeout nat64?
    relayPingTimeout := ← field? fields "relay_ping_timeout_ms" d.relayPingTimeout nat64?
    relays := ← field? fields "relays" d.relays (list? text?)
    traceTimeout := ← field? fields "trace_timeout_ms" d.traceTimeout nat64?
    mainNode := ← field? fields "main_node" d.mainNode (option? text?)
    interface := ← field? fields "interface" d.interface text? }

def Options.ofJson? (v : JsonValue) : Option Options := do
  let d : Options := {}
  let fields ← v.fields? ["comments", "formatted", "formatted_strings", "has_header"]
  return {
    comments := ← field? fields "comments" d.comments bool?
    formatted := ← field? fields "formatted" d.formatted bool?
    formattedStrings := ← field? fields "formatted_strings" d.formattedStrings bool?
    hasHeader := ← field? fields "has_header" d.hasHeader bool? }

namespace Configuration

def ofJson? (v : JsonValue) : Option Configuration := do
  let d : Configuration := {}
  let fields ← v.fields? ["liveness", "decompile"]
  return {
    liveness := ← field? fields "liveness" d.liveness LivenessPolicy.ofJson?
    decompile := ← field? fields "decompile" d.decompile Options.ofJson? }

/-- The configuration in a file, of which the bytes are given if it exists. -/
def ofFile (file : Option (List UInt8)) : Except ConfigurationFault Configuration :=
  match file.bind ofUtf8? with
  | none => .error .unreadable
  | some content =>
    match (JsonValue.parse? content).bind ofJson? with
    | none => .error .malformed
    | some c => .ok c

end Configuration

end Dxb
