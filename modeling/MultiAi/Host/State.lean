import MultiAi.Protocol.Types

/-! # Connections of a host

The states of a host's two connections, the events its tasks send to the
monitor, and the backoff between attempts. Durations are in milliseconds.
-/

namespace MultiAi

/-- How the app reaches a host. -/
inductive HostKind where
  | localHost
  | ssh (target : String)
  deriving DecidableEq, Repr

structure HostConfig where
  id : String
  kind : HostKind
  /-- zellij binary on the host when it is not found automatically. -/
  zellij : Option String
  deriving DecidableEq, Repr

/-- Why a connection waits for the user instead of retrying. -/
inductive Problem where
  | auth (m : String)
  | hostKeyRejected
  | hostKeyChanged (file : String) (line : ℕ)
  | hostKeyRevoked (file : String) (line : ℕ)
  | deploy (m : String)
  | config (m : String)
  | protocol (probe app : ℕ)
  deriving DecidableEq, Repr

/-- Why an attempt to connect failed. -/
inductive OpenError where
  | retry (m : String)
  | needsUser (p : Problem)
  deriving DecidableEq, Repr

/-- State of one connection of a host. -/
inductive ConnState where
  | connecting
  | up
  | retrying (retryIn : ℕ) (reason : String)
  | needsUser (p : Problem)
  deriving DecidableEq, Repr

/-- Overall host state shown in the UI. -/
inductive HostState where
  | connecting
  | online
  | degraded
  | offline
  | authRequired
  deriving DecidableEq, Repr

/-- The text of a problem, as shown to the user. -/
def Problem.text : Problem → String
  | .auth m => s!"authentication failed: {m}"
  | .hostKeyRejected => "host key not accepted"
  | .hostKeyChanged file line => s!"HOST KEY CHANGED (recorded in {file} line {line})"
  | .hostKeyRevoked file line => s!"host key REVOKED (marked in {file} line {line})"
  | .deploy m => s!"probe deployment failed: {m}"
  | .config m => s!"configuration error: {m}"
  | .protocol probe app => s!"probe protocol {probe} does not match app protocol {app}"

def reasonOf : OpenError → String
  | .retry m => m
  | .needsUser p => p.text

def needsAuth : ConnState → Bool
  | .needsUser (.auth _) => true
  | .needsUser .hostKeyRejected => true
  | .needsUser (.hostKeyChanged _ _) => true
  | .needsUser (.hostKeyRevoked _ _) => true
  | _ => false

/-- Host state from its probe connection and, once it exists, its terminal connection. -/
def hostState (probe : ConnState) (term : Option ConnState) : HostState :=
  let conns := probe :: term.toList
  let up := conns.countP (· = .up)
  if up = conns.length then .online
  else if 0 < up then .degraded
  else if conns.any needsAuth then .authRequired
  else if conns.any (· = .connecting) then .connecting
  else .offline

/-- Reconnect delays: 1 s doubling to 60 s. -/
structure Backoff where
  next : ℕ
  deriving DecidableEq, Repr

namespace Backoff

def first : ℕ := 1000

def max : ℕ := 60000

def default : Backoff := ⟨first⟩

/-- The delay to wait now; the following one doubles. -/
def nextDelay (b : Backoff) : ℕ × Backoff := (b.next, ⟨min (b.next * 2) max⟩)

def reset (_ : Backoff) : Backoff := ⟨first⟩

end Backoff

/-- A connection that stayed up this long resets the backoff when it drops. -/
def stableAfter : ℕ := 30000

/-- What the probe reported about itself. -/
structure HelloInfo where
  protocolVersion : ℕ
  probeVersion : String
  os : String
  arch : String
  zellijPath : Option String
  zellijVersion : Option String
  deriving DecidableEq, Repr

structure HookResult where
  agent : String
  outcome : String
  path : Option String
  note : Option String
  reason : Option String
  error : Option String
  deriving DecidableEq, Repr

/-- Sent by a host task to the monitor. -/
inductive HostEvent where
  | probe (state : ConnState)
  | hello (info : HelloInfo)
  | hooks (result : Except String (List HookResult))
  | msg (m : ProbeMsg)
  | dropped (m : AppMsg)
  | term (state : Option ConnState)
  | notes (notes : List String)

end MultiAi
