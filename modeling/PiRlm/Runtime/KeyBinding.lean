/-
  PiRlm.Runtime.KeyBinding

  `bindKeys` of `runtime/broker.ts`, and the registry that recovery builds from the
  `key_bound` events of a journal.

  A step is one synchronous piece of a call: its start, what follows an append, what
  follows the promises it waits for.  The journal takes the appends when it wants, may
  refuse them, and ignores what comes after a terminal event.
-/
import Mathlib
import PiRlm.Core.Ids
import PiRlm.Core.Journal
import PiRlm.Lib.Machine

namespace PiRlm.Runtime

open PiRlm.Lib PiRlm.Lib.Json PiRlm.Core

/-- The separator `\u0000` of registry keys. -/
def nul : JsString := [0]

-- ============================================================================
-- The journal
-- ============================================================================

structure KeyBound where
  frameId : JsString
  kind : CallKind
  key : JsString
  identityHash : JsString
  deriving Repr, DecidableEq

inductive JournalEntry where
  | keyBound (event : KeyBound)
  | other (event : RlmEvent)
  deriving Repr, DecidableEq

def JournalEntry.keyBound? : JournalEntry → Option KeyBound
  | .keyBound event => some event
  | .other _ => none

def JournalEntry.isTerminal : JournalEntry → Bool
  | .keyBound _ => false
  | .other event => event.isTerminalEvent

def keyBounds (journal : List JournalEntry) : List KeyBound :=
  journal.filterMap JournalEntry.keyBound?

/-- `JournalStore.append`: nothing is added after a terminal event. -/
def appendEntry (journal : List JournalEntry) (entry : JournalEntry) : List JournalEntry :=
  if journal.any JournalEntry.isTerminal then journal else journal ++ [entry]

/-- The lineage in the frame name of a recurse binding:
`/^(call_recurse_[a-f0-9]{64}):e[1-9][0-9]*$/` after the run's prefix. -/
def recurseLineage? (runId frameId : JsString) : Option JsString :=
  let start := runId ++ js ":frame:"
  if start.isPrefixOf frameId then
    let rest := frameId.drop start.length
    let callId := rest.take 77
    let suffix := rest.drop 77
    if isRecurseCallId callId && (js ":e").isPrefixOf suffix && isOrdinal (suffix.drop 2) then
      some callId
    else none
  else none

def recoveryKeyRegistryId (runId : JsString) (event : KeyBound) : Except JsString JsString :=
  if event.kind ≠ .recurse then .ok (event.kind.text ++ nul ++ event.key)
  else if event.frameId = rootFrameId runId then
    .ok (event.kind.text ++ nul ++ event.frameId ++ nul ++ event.key)
  else
    match recurseLineage? runId event.frameId with
    | none => .error (js "recurse key binding has an invalid frame lineage")
    | some lineage => .ok (event.kind.text ++ nul ++ lineage ++ nul ++ event.key)

-- ============================================================================
-- The registry of a run
-- ============================================================================

/-- What `bindKeys` throws. -/
inductive BindError where
  /-- `KEY_IDENTITY_CHANGED`. -/
  | keyIdentityChanged (kind : CallKind) (key : JsString)
  /-- An identity that has no hash. -/
  | invalidIdentity (message : JsString)
  /-- The rejection of an append. -/
  | append (error : JsString)
  deriving Repr, DecidableEq

/-- The promise that a binding is ready. -/
inductive Ready where
  | pending
  | resolved
  | rejected (error : BindError)
  deriving Repr, DecidableEq

inductive BindingState where
  | pending
  | durable
  | durableFailed (error : BindError)
  deriving Repr, DecidableEq

structure KeyIdentityBinding where
  canonicalIdentity : Option JsString
  identityHash : JsString
  ready : Ready
  state : BindingState
  deriving Repr, DecidableEq

variable {runId : JsString} {N : Type} [JsonNumber N]

structure KeyClaim (runId : JsString) (N : Type) where
  frame : FrameRef runId
  kind : CallKind
  key : JsString
  identity : Json N

def keyRegistryId (kind : CallKind) (key : JsString) (frame : FrameRef runId) : JsString :=
  if kind = .recurse then
    kind.text ++ nul ++ frame.lineage.getD frame.frameId ++ nul ++ key
  else kind.text ++ nul ++ key

/-- A claim with the canonical text and the hash of its identity. -/
structure RequestedClaim (runId : JsString) (N : Type) extends KeyClaim runId N where
  canonicalIdentity : JsString
  identityHash : JsString

def RequestedClaim.registryId (claim : RequestedClaim runId N) : JsString :=
  keyRegistryId claim.kind claim.key claim.frame

def RequestedClaim.event (claim : RequestedClaim runId N) : KeyBound :=
  ⟨claim.frame.frameId, claim.kind, claim.key, claim.identityHash⟩

/-- A claim whose binding the call has put in the registry, by reference. -/
structure Installed (runId : JsString) (N : Type) where
  claim : RequestedClaim runId N
  binding : Nat

/-- How far the append that a call waits for has come. -/
inductive AppendProgress where
  | queued
  | written
  | ignored
  deriving Repr, DecidableEq

inductive BindPhase (runId : JsString) (N : Type) where
  /-- `await Promise.all(pending)`. -/
  | waiting (pending : List Nat)
  /-- Waits for the append of the current claim; the others come after it. -/
  | appending (current : Installed runId N) (remaining : List (Installed runId N))
      (progress : AppendProgress)
  | returned
  | threw (error : BindError)

structure BindCall (runId : JsString) (N : Type) where
  claims : List (KeyClaim runId N)
  requested : List (RequestedClaim runId N)
  phase : BindPhase runId N

structure KeyRegistry (runId : JsString) (N : Type) where
  keyIdentities : JsString → Option Nat
  bindings : List KeyIdentityBinding
  journal : List JournalEntry
  calls : List (BindCall runId N)

-- ============================================================================
-- Validation of the claims of one call
-- ============================================================================

def normalizeClaim (hasher : Hasher) (claim : KeyClaim runId N) :
    Except BindError (RequestedClaim runId N) :=
  match canonicalStringify claim.identity, identityHash hasher claim.identity with
  | .ok canonicalIdentity, .ok hash => .ok ⟨claim, canonicalIdentity, hash⟩
  | .error message, _ => .error (.invalidIdentity message)
  | _, .error message => .error (.invalidIdentity message)

/-- The claims after one more: a second claim of a key must have the same identity. -/
def requestClaim (hasher : Hasher) (requested : List (RequestedClaim runId N))
    (claim : KeyClaim runId N) : Except BindError (List (RequestedClaim runId N)) :=
  (normalizeClaim hasher claim).bind fun normalized =>
    match requested.find? fun prior => prior.registryId == normalized.registryId with
    | none => .ok (requested ++ [normalized])
    | some prior =>
      if prior.canonicalIdentity ≠ normalized.canonicalIdentity then
        .error (.keyIdentityChanged claim.kind claim.key)
      else .ok requested

def requestClaims (hasher : Hasher) (requested : List (RequestedClaim runId N)) :
    List (KeyClaim runId N) → Except BindError (List (RequestedClaim runId N))
  | [] => .ok requested
  | claim :: claims =>
    (requestClaim hasher requested claim).bind fun requested => requestClaims hasher requested claims

-- ============================================================================
-- The loop
-- ============================================================================

namespace KeyRegistry

variable (st : KeyRegistry runId N)

def binding? (id : JsString) : Option (Nat × KeyIdentityBinding) :=
  (st.keyIdentities id).bind fun ref => (st.bindings[ref]?).map fun bound => (ref, bound)

/-- How far the promise of a binding has come. -/
def ready? (ref : Nat) : Option Ready :=
  (st.bindings[ref]?).map KeyIdentityBinding.ready

/-- What a call finds in the registry: bindings to wait for, and claims to install. -/
def inspect : List (RequestedClaim runId N) →
    Except BindError (List Nat × List (RequestedClaim runId N))
  | [] => .ok ([], [])
  | claim :: claims =>
    match st.binding? claim.registryId with
    | none => (inspect claims).map fun found => (found.1, claim :: found.2)
    | some (ref, bound) =>
      if bound.identityHash ≠ claim.identityHash then
        .error (.keyIdentityChanged claim.kind claim.key)
      else
        match bound.state with
        | .durableFailed error => .error error
        | .pending => (inspect claims).map fun found => (ref :: found.1, found.2)
        | .durable => inspect claims

def install (claim : RequestedClaim runId N) : KeyRegistry runId N :=
  { st with
    bindings := st.bindings ++
      [⟨some claim.canonicalIdentity, claim.identityHash, .pending, .pending⟩]
    keyIdentities := Function.update st.keyIdentities claim.registryId (some st.bindings.length) }

def installAll (st : KeyRegistry runId N) :
    List (RequestedClaim runId N) → KeyRegistry runId N × List (Installed runId N)
  | [] => (st, [])
  | claim :: claims =>
    let rest := (st.install claim).installAll claims
    (rest.1, ⟨claim, st.bindings.length⟩ :: rest.2)

/-- One turn of the loop, up to the next wait. -/
def turn (call : BindCall runId N) : KeyRegistry runId N × BindCall runId N :=
  match st.inspect call.requested with
  | .error error => (st, { call with phase := .threw error })
  | .ok (ref :: refs, _) => (st, { call with phase := .waiting (ref :: refs) })
  | .ok ([], additions) =>
    match st.installAll additions with
    | (st', current :: remaining) =>
      (st', { call with phase := .appending current remaining .queued })
    | (st', []) => (st', { call with phase := .returned })

def setBinding (ref : Nat) (ready : Ready) (state : BindingState) : KeyRegistry runId N :=
  { st with bindings := st.bindings.modify ref fun bound => { bound with ready, state } }

def setCall (c : Nat) (call : BindCall runId N) : KeyRegistry runId N :=
  { st with calls := st.calls.set c call }

/-- Deletes a binding, if it still is the one in the registry, and rejects its promise. -/
def discard (error : BindError) (installed : Installed runId N) : KeyRegistry runId N :=
  { st with
    keyIdentities :=
      if st.keyIdentities installed.claim.registryId = some installed.binding then
        Function.update st.keyIdentities installed.claim.registryId none
      else st.keyIdentities
    bindings := st.bindings.modify installed.binding fun bound =>
      { bound with ready := .rejected error } }

/-- The handler of a failed append. -/
def fail (current : Installed runId N) (remaining : List (Installed runId N))
    (error : BindError) (eventDurable : Bool) : KeyRegistry runId N :=
  remaining.foldl (fun st installed => st.discard error installed)
    (if eventDurable then
      st.setBinding current.binding (.rejected error) (.durableFailed error)
    else st.discard error current)

end KeyRegistry

-- ============================================================================
-- Steps
-- ============================================================================

inductive BindStep (runId : JsString) (N : Type) where
  | call (claims : List (KeyClaim runId N))
  /-- All the promises that a call waits for are resolved. -/
  | resume (c : Nat)
  /-- One of them is rejected. -/
  | rejected (c : Nat) (ref : Nat)
  /-- The journal comes to the append that a call waits for. -/
  | handled (c : Nat)
  | appended (c : Nat)
  | appendFailed (c : Nat) (error : JsString) (eventDurable : Bool)
  /-- Any other part of the run appends an event. -/
  | other (event : RlmEvent)

namespace KeyRegistry

variable (hasher : Hasher) (st : KeyRegistry runId N)

def call (claims : List (KeyClaim runId N)) : KeyRegistry runId N :=
  match requestClaims hasher [] claims with
  | .error error => { st with calls := st.calls ++ [⟨claims, [], .threw error⟩] }
  | .ok requested =>
    let next := st.turn ⟨claims, requested, .returned⟩
    { next.1 with calls := st.calls ++ [next.2] }

def resume (c : Nat) : Option (KeyRegistry runId N) :=
  match st.calls[c]? with
  | some ⟨claims, requested, .waiting refs⟩ =>
    if ∀ ref ∈ refs, st.ready? ref = some .resolved then
      let next := st.turn ⟨claims, requested, .returned⟩
      some (next.1.setCall c next.2)
    else none
  | _ => none

def rejected (c ref : Nat) : Option (KeyRegistry runId N) :=
  match st.calls[c]? with
  | some ⟨claims, requested, .waiting refs⟩ =>
    if ref ∈ refs then
      match st.ready? ref with
      | some (.rejected error) => some (st.setCall c ⟨claims, requested, .threw error⟩)
      | _ => none
    else none
  | _ => none

def handled (c : Nat) : Option (KeyRegistry runId N) :=
  match st.calls[c]? with
  | some ⟨claims, requested, .appending current remaining .queued⟩ =>
    let progress : AppendProgress :=
      if st.journal.any JournalEntry.isTerminal then .ignored else .written
    some { st.setCall c ⟨claims, requested, .appending current remaining progress⟩ with
      journal := appendEntry st.journal (.keyBound current.claim.event) }
  | _ => none

/-- The phase of a call after its current append. -/
def nextPhase : List (Installed runId N) → BindPhase runId N
  | [] => .returned
  | next :: remaining => .appending next remaining .queued

/-- The append of a call is answered; an ignored one is answered like any other. -/
def appended (c : Nat) : Option (KeyRegistry runId N) :=
  match st.calls[c]? with
  | some ⟨claims, requested, .appending current remaining progress⟩ =>
    if progress ≠ .queued then
      some ((st.setBinding current.binding .resolved .durable).setCall c
        ⟨claims, requested, nextPhase remaining⟩)
    else none
  | _ => none

/-- The append of a call fails; the error says whether the event is durable. -/
def appendFailed (c : Nat) (error : JsString) (eventDurable : Bool) :
    Option (KeyRegistry runId N) :=
  match st.calls[c]? with
  | some ⟨claims, requested, .appending current remaining progress⟩ =>
    if eventDurable = decide (progress = .written) then
      some ((st.fail current remaining (.append error) eventDurable).setCall c
        ⟨claims, requested, .threw (.append error)⟩)
    else none
  | _ => none

def step : BindStep runId N → Option (KeyRegistry runId N)
  | .call claims => some (st.call hasher claims)
  | .resume c => st.resume c
  | .rejected c ref => st.rejected c ref
  | .handled c => st.handled c
  | .appended c => st.appended c
  | .appendFailed c error eventDurable => st.appendFailed c error eventDurable
  | .other event => some { st with journal := appendEntry st.journal (.other event) }

/-- The registry of a run that starts with a journal: every binding of it is durable. -/
def restored (journal : List JournalEntry) : KeyRegistry runId N where
  keyIdentities id :=
    (keyBounds journal).findIdx? fun event => recoveryKeyRegistryId runId event = .ok id
  bindings := (keyBounds journal).map fun event => ⟨none, event.identityHash, .resolved, .durable⟩
  journal := journal
  calls := []

end KeyRegistry

/-- The call that a step moves. -/
def BindStep.caller (st : KeyRegistry runId N) : BindStep runId N → Option Nat
  | .call _ => some st.calls.length
  | .resume c | .rejected c _ | .handled c | .appended c | .appendFailed c _ _ => some c
  | .other _ => none

/-- No two bindings of a registry key in the journal have different identities. -/
def BindingsAgree (runId : JsString) (journal : List JournalEntry) : Prop :=
  ∀ e₁ ∈ keyBounds journal, ∀ e₂ ∈ keyBounds journal, ∀ id,
    recoveryKeyRegistryId runId e₁ = .ok id → recoveryKeyRegistryId runId e₂ = .ok id →
      e₁.identityHash = e₂.identityHash

end PiRlm.Runtime
