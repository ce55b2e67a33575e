import EgoChain.Foundations.KeyedMap

/-!
# Contract calls

`call_on` runs a contract and then, level by level, the cross calls that the
executed contracts queued.  The Wasm engine is any function from a program, a host
context and the input to what the run did; the host decides which of the cross
calls it asked for are queued.

`trace` and the queuing contract of a pending request are records for the
statements about a call and are read by nobody.
-/

namespace EgoChain.Vm

open EgoChain.Foundations

def defaultCallFuel : Nat := 10000000
def maxCrossCallFuel : Nat := defaultCallFuel
def maxDepth : Nat := 8

structure CrossCallRequest where
  contractAddr : String
  entrypoint : String
  args : List UInt8
  fuel : Nat
  deriving DecidableEq

structure ContractEvent where
  contract : String
  topic : String
  payload : List UInt8
  height : Nat
  timestamp : Int
  deriving DecidableEq

inductive VmError where
  | compileError (text : String)
  | instantiationError (text : String)
  | executionError (text : String)
  | fuelExhausted
  | memoryLimit
  | invalidAbi (text : String)
  | storageError (text : String)
  | hostCallError (text : String)
  | unauthorized (text : String)
  deriving DecidableEq

def VmError.display : VmError → String
  | .compileError text => "Compile error: " ++ text
  | .instantiationError text => "Instantiation error: " ++ text
  | .executionError text => "Execution error: " ++ text
  | .fuelExhausted => "Fuel exhausted (RU limit reached)"
  | .memoryLimit => "Memory limit exceeded"
  | .invalidAbi text => "Invalid ABI: " ++ text
  | .storageError text => "Storage error: " ++ text
  | .hostCallError text => "Host call error: " ++ text
  | .unauthorized text => "Unauthorized: " ++ text

def transfersDisabled : String := "this contract tried to move EGOC, which contracts cannot do yet"

section

variable (State Module : Type)

structure HostCtx where
  contractAddr : String
  caller : String
  blockHeight : Nat
  timestamp : Int
  state : State
  events : List ContractEvent
  transfers : List (String × Nat)
  callDepth : Nat
  pendingCrossCalls : List CrossCallRequest

/-- What a run of a program did: the cross calls are those it asked the host for. -/
structure Outcome where
  state : State
  events : List ContractEvent
  transfers : List (String × Nat)
  crossCalls : List CrossCallRequest
  ruUsed : Nat
  returnVal : List UInt8

structure Wasm where
  compile : List UInt8 → Except VmError Module
  run : Module → HostCtx State → (entrypoint : String) → (args : List UInt8) → (fuel : Nat) →
    Except VmError (Outcome State)

structure ContractSource where
  code : String → Option (List UInt8)
  state : String → State

end

structure ExecEnv where
  blockHeight : Nat
  timestamp : Int
  fuel : Nat
  allowTransfers : Bool

/-- A pending request, and the contract whose execution queued it. -/
structure Queued extends CrossCallRequest where
  queuer : String

/-- An executed contract: what it was told about its caller, who queued the call, and what it
queued itself.  The call from outside has depth 0. -/
structure Executed where
  contract : String
  caller : String
  queuer : String
  depth : Nat
  queued : List CrossCallRequest
  deriving DecidableEq

def Executed.requests (executed : Executed) : List Queued :=
  executed.queued.map fun request => ⟨request, executed.contract⟩

structure CallResult where
  success : Bool
  returnVal : List UInt8
  ruUsed : Nat
  events : List ContractEvent
  error : Option String
  transfers : List (String × Nat)

structure CallEffects (State : Type) where
  result : CallResult
  states : KeyedMap String State
  trace : List Executed

def failedCall {State : Type} (ruUsed : Nat) (error : String) (trace : List Executed) :
    CallEffects State where
  result := {
    success := false
    returnVal := []
    ruUsed := ruUsed
    events := []
    error := some error
    transfers := [] }
  states := ∅
  trace := trace

variable {State Module : Type}

namespace HostCtx

def new (contractAddr caller : String) (blockHeight : Nat) (timestamp : Int) (state : State) :
    HostCtx State where
  contractAddr := contractAddr
  caller := caller
  blockHeight := blockHeight
  timestamp := timestamp
  state := state
  events := []
  transfers := []
  callDepth := 0
  pendingCrossCalls := []

def egoCrossCall (ctx : HostCtx State) (request : CrossCallRequest) : HostCtx State :=
  if ctx.callDepth ≥ maxDepth then ctx
  else
    { ctx with
      pendingCrossCalls :=
        ctx.pendingCrossCalls ++ [{ request with fuel := min request.fuel maxCrossCallFuel }] }

end HostCtx

variable (wasm : Wasm State Module)

def runEntrypoint (program : Module) (ctx : HostCtx State) (entrypoint : String) (args : List UInt8)
    (fuel : Nat) : Except VmError (HostCtx State × Nat × List UInt8) :=
  match wasm.run program ctx entrypoint args fuel with
  | .error error => .error error
  | .ok outcome =>
    .ok (outcome.crossCalls.foldl HostCtx.egoCrossCall { ctx with
          state := outcome.state
          events := outcome.events
          transfers := outcome.transfers },
        outcome.ruUsed, outcome.returnVal)

/-- The variables of the work loop. -/
structure Loop (State : Type) where
  touched : KeyedMap String State
  events : List ContractEvent
  transfers : List (String × Nat)
  ru : Nat
  pending : List Queued
  trace : List Executed

/-- The module of a contract, if it has code that compiles. -/
def moduleOf (src : ContractSource State) (contract : String) : Option Module :=
  match src.code contract with
  | none => none
  | some bytes => (wasm.compile bytes).toOption

section Calls

variable (src : ContractSource State) (env : ExecEnv)

/-- One pending cross call, in a call of the contract `top`. -/
def crossCall (top : String) (depth : Nat) (loop : Loop State) (request : Queued) : Loop State :=
  match moduleOf wasm src request.contractAddr with
  | none => loop
  | some program =>
    let crossState := (loop.touched.lookup request.contractAddr).getD (src.state request.contractAddr)
    let ctx := { HostCtx.new request.contractAddr top env.blockHeight env.timestamp crossState with
      callDepth := depth }
    let entry (queued : List CrossCallRequest) : Executed :=
      ⟨request.contractAddr, ctx.caller, request.queuer, depth, queued⟩
    match runEntrypoint wasm program ctx request.entrypoint request.args
        (min request.fuel maxCrossCallFuel) with
    | .error _ => { loop with trace := loop.trace ++ [entry []] }
    | .ok (out, ru, _) =>
      { touched := loop.touched.insert request.contractAddr out.state
        events := loop.events ++ out.events
        transfers := loop.transfers ++ out.transfers
        ru := loop.ru + ru
        pending := loop.pending ++ (entry out.pendingCrossCalls).requests
        trace := loop.trace ++ [entry out.pendingCrossCalls] }

/-- The levels of cross calls, as many as remain below the depth limit. -/
def crossLevels (top : String) : Nat → Nat → Loop State → Loop State
  | 0, _, loop => loop
  | remaining + 1, depth, loop =>
    if loop.pending.isEmpty then loop
    else
      crossLevels top remaining (depth + 1)
        (loop.pending.foldl (crossCall wasm src env top depth) { loop with pending := [] })

def callOn (contractAddr callerAddr entrypoint : String) (args : List UInt8) :
    Except VmError (CallEffects State) :=
  match src.code contractAddr with
  | none => .error (.storageError s!"Code not found for {contractAddr}")
  | some bytes =>
    match wasm.compile bytes with
    | .error error => .error error
    | .ok program =>
      let ctx := HostCtx.new contractAddr callerAddr env.blockHeight env.timestamp
        (src.state contractAddr)
      let entry (queued : List CrossCallRequest) : Executed :=
        ⟨contractAddr, ctx.caller, callerAddr, 0, queued⟩
      match runEntrypoint wasm program ctx entrypoint args env.fuel with
      | .error .fuelExhausted => .ok (failedCall env.fuel "Fuel exhausted" [entry []])
      | .error error => .ok (failedCall 0 error.display [entry []])
      | .ok (out, ruUsed, returnVal) =>
        let loop := crossLevels wasm src env contractAddr (maxDepth - 1) 1
          { touched := (∅ : KeyedMap String State).insert contractAddr out.state
            events := out.events
            transfers := out.transfers
            ru := ruUsed
            pending := (entry out.pendingCrossCalls).requests
            trace := [entry out.pendingCrossCalls] }
        if env.allowTransfers = false ∧ loop.transfers ≠ [] then
          .ok (failedCall loop.ru transfersDisabled loop.trace)
        else
          .ok {
            result := {
              success := true
              returnVal := returnVal
              ruUsed := loop.ru
              events := loop.events
              error := none
              transfers := loop.transfers }
            states := loop.touched
            trace := loop.trace }

end Calls

end EgoChain.Vm
