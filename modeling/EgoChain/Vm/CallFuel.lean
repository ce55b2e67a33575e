import EgoChain.Vm.CallerIdentity

/-!
# The fuel of a call and of the cross calls below it

A cross call runs on the fuel its request names, up to a fixed cap, and none of it is taken
from the contract that queued it.  A run can therefore burn and hand on more than it was given,
or less; the tree of a call stays within the fuel of the call exactly if the first adds up to no
more than the second.  The number of cross calls is bounded in any case, because a program pays for
each one that it asks for.
-/

namespace EgoChain.Vm

open EgoChain.Foundations List Nat

variable {State Module : Type}

/-- The fuel a run of a program burns, whether it succeeds or not. -/
abbrev Meter (State Module : Type) : Type :=
  Module → HostCtx State → String → List UInt8 → Nat → Nat

/-- A run burns no more than it is given, is reported with what it burned, and pays for every
cross call it asks for. -/
structure Metered (wasm : Wasm State Module) (burned : Meter State Module) : Prop where
  within : ∀ program ctx entrypoint args fuel, burned program ctx entrypoint args fuel ≤ fuel
  reported : ∀ {program ctx entrypoint args fuel outcome},
    wasm.run program ctx entrypoint args fuel = .ok outcome →
    outcome.ruUsed = burned program ctx entrypoint args fuel
  asked : ∀ {program ctx entrypoint args fuel outcome},
    wasm.run program ctx entrypoint args fuel = .ok outcome →
    outcome.crossCalls.length ≤ outcome.ruUsed

/-- The fuel that the requests may burn. -/
def allowance (requests : List CrossCallRequest) : Nat :=
  (requests.map fun request => min request.fuel maxCrossCallFuel).sum

/-- The fuel that a run hands on to the cross calls it queues. -/
def handedOn : Except VmError (HostCtx State × Nat × List UInt8) → Nat
  | .error _ => 0
  | .ok (out, _, _) => allowance out.pendingCrossCalls

/-- A number that is taken of every run, from the fuel it is given, burns and hands on. -/
abbrev Count : Type := Nat → Nat → Nat → Nat

def Count.burned : Count := fun _ burned _ => burned

/-- What a run burns and hands on and does not have. -/
def Count.overdrawn : Count := fun given burned handed => burned + handed - given

/-- What a run has and neither burns nor hands on. -/
def Count.unspent : Count := fun given burned handed => given - (burned + handed)

section Burned

variable (wasm : Wasm State Module) (src : ContractSource State) (burned : Meter State Module)
  (env : ExecEnv) (top : String) (count : Count)

def runCount (program : Module) (ctx : HostCtx State) (entrypoint : String) (args : List UInt8)
    (fuel : Nat) : Nat :=
  count fuel (burned program ctx entrypoint args fuel)
    (handedOn (runEntrypoint wasm program ctx entrypoint args fuel))

/-- A request that is not run burns and hands on nothing. -/
def idleCount (request : Queued) : Nat := count (min request.fuel maxCrossCallFuel) 0 0

def crossCtx (depth : Nat) (loop : Loop State) (request : Queued) : HostCtx State :=
  { HostCtx.new request.contractAddr top env.blockHeight env.timestamp
      ((loop.touched.lookup request.contractAddr).getD (src.state request.contractAddr)) with
    callDepth := depth }

/-- The number over `crossCall`. -/
def crossCount (depth : Nat) (loop : Loop State) (request : Queued) : Nat :=
  match moduleOf wasm src request.contractAddr with
  | none => idleCount count request
  | some program =>
    runCount wasm burned count program (crossCtx src env top depth loop request) request.entrypoint
      request.args (min request.fuel maxCrossCallFuel)

def levelCount (depth : Nat) : List Queued → Loop State → Nat
  | [], _ => 0
  | request :: rest, loop =>
    crossCount wasm src burned env top count depth loop request +
      levelCount depth rest (crossCall wasm src env top depth loop request)

/-- The number over `crossLevels`. -/
def levelsCount : Nat → Nat → Loop State → Nat
  | 0, _, loop => (loop.pending.map (idleCount count)).sum
  | remaining + 1, depth, loop =>
    if loop.pending.isEmpty then 0
    else
      levelCount wasm src burned env top count depth loop.pending { loop with pending := [] } +
        levelsCount remaining (depth + 1)
          (loop.pending.foldl (crossCall wasm src env top depth) { loop with pending := [] })

/-- The variables of the work loop behind the entry point. -/
def entryLoop (contractAddr callerAddr : String) (out : HostCtx State) (ruUsed : Nat) : Loop State :=
  let entry : Executed := ⟨contractAddr, callerAddr, callerAddr, 0, out.pendingCrossCalls⟩
  { touched := (∅ : KeyedMap String State).insert contractAddr out.state
    events := out.events
    transfers := out.transfers
    ru := ruUsed
    pending := entry.requests
    trace := [entry] }

/-- The number over `callOn`: the entry point, and every cross call it causes. -/
def callCount (contractAddr callerAddr entrypoint : String) (args : List UInt8) : Nat :=
  match moduleOf wasm src contractAddr with
  | none => count env.fuel 0 0
  | some program =>
    let ctx := HostCtx.new contractAddr callerAddr env.blockHeight env.timestamp
      (src.state contractAddr)
    runCount wasm burned count program ctx entrypoint args env.fuel +
      match runEntrypoint wasm program ctx entrypoint args env.fuel with
      | .error _ => 0
      | .ok (out, ruUsed, _) =>
        levelsCount wasm src burned env contractAddr count (maxDepth - 1) 1
          (entryLoop contractAddr callerAddr out ruUsed)

/-- The fuel that a call and the cross calls below it burn. -/
def callBurned : String → String → String → List UInt8 → Nat :=
  callCount wasm src burned env .burned

end Burned

variable {wasm : Wasm State Module} {src : ContractSource State} {burned : Meter State Module}
  {env : ExecEnv} {top : String} {depth : Nat}

theorem foldl_egoCrossCall (requests : List CrossCallRequest) (ctx : HostCtx State) :
    (requests.foldl HostCtx.egoCrossCall ctx).pendingCrossCalls = ctx.pendingCrossCalls ++
      if ctx.callDepth ≥ maxDepth then []
      else requests.map fun request => { request with fuel := min request.fuel maxCrossCallFuel } := by
  induction requests generalizing ctx with
  | nil => simp
  | cons request rest ih =>
    rw [foldl_cons, HostCtx.egoCrossCall]
    split <;> simp [*]

/-- A run queues no more than it asked for. -/
theorem runEntrypoint_ok {program : Module} {ctx out : HostCtx State} {entrypoint : String}
    {args returnVal : List UInt8} {fuel ru : Nat} (fresh : ctx.pendingCrossCalls = [])
    (ran : runEntrypoint wasm program ctx entrypoint args fuel = .ok (out, ru, returnVal)) :
    ∃ outcome, wasm.run program ctx entrypoint args fuel = .ok outcome ∧
      out.pendingCrossCalls.length ≤ outcome.crossCalls.length := by
  unfold runEntrypoint at ran
  split at ran
  case h_1 => cases ran
  case h_2 outcome ranOk =>
  cases ran
  refine ⟨outcome, ranOk, ?_⟩
  rw [foldl_egoCrossCall, fresh]
  split <;> simp

/-- The requests of the loop, without their queuers. -/
def Loop.asked (loop : Loop State) : List CrossCallRequest :=
  loop.pending.map Queued.toCrossCallRequest

theorem asked_requests (entry : Executed) :
    entry.requests.map Queued.toCrossCallRequest = entry.queued := by
  simp [Executed.requests, Function.comp_def]

theorem asked_entryLoop {contractAddr callerAddr : String} {out : HostCtx State} {ruUsed : Nat} :
    (entryLoop contractAddr callerAddr out ruUsed).asked = out.pendingCrossCalls :=
  asked_requests _

theorem allowance_append (first second : List CrossCallRequest) :
    allowance (first ++ second) = allowance first + allowance second := by
  simp [allowance]

/-- Of every run: what it burns, hands on and leaves is what it is given and what it overdraws. -/
theorem runCount_balance (program : Module) (ctx : HostCtx State) (entrypoint : String)
    (args : List UInt8) (fuel : Nat) :
    runCount wasm burned .burned program ctx entrypoint args fuel +
        runCount wasm burned .unspent program ctx entrypoint args fuel +
        handedOn (runEntrypoint wasm program ctx entrypoint args fuel) =
      fuel + runCount wasm burned .overdrawn program ctx entrypoint args fuel := by
  simp only [runCount, Count.burned, Count.unspent, Count.overdrawn]
  omega

theorem idleCount_eq : idleCount .burned = (fun _ => 0) ∧ idleCount .overdrawn = (fun _ => 0) ∧
    idleCount .unspent = fun request => min request.fuel maxCrossCallFuel := by
  refine ⟨rfl, funext fun _ => Nat.zero_sub _, rfl⟩

/-- What a part of the loop adds that executes requests with the given allowance. -/
structure Spends (requests : List CrossCallRequest) (loop next : Loop State) (spent : Count → Nat)
    (queued : List CrossCallRequest) : Prop where
  asked : next.asked = loop.asked ++ queued
  trace : next.trace.length ≤ loop.trace.length + requests.length
  few : queued.length ≤ requests.length * maxCrossCallFuel
  balance : spent .burned + spent .unspent + allowance queued = allowance requests + spent .overdrawn

section Spending

variable (metered : Metered wasm burned) (src : ContractSource State) (env : ExecEnv) (top : String)

include metered

theorem crossCall_spends (depth : Nat) (loop : Loop State) (request : Queued) :
    ∃ queued, Spends [request.toCrossCallRequest] loop
      (crossCall wasm src env top depth loop request)
      (crossCount wasm src burned env top · depth loop request) queued := by
  unfold crossCall
  split
  case h_1 absent =>
    exact ⟨[], by simp, by simp, by simp, by simp [crossCount, absent, idleCount_eq, allowance]⟩
  case h_2 program found =>
  have balance := @runCount_balance _ _ wasm burned program (crossCtx src env top depth loop request)
    request.entrypoint request.args (min request.fuel maxCrossCallFuel)
  dsimp only
  split
  case h_1 failed =>
    change runEntrypoint wasm program (crossCtx src env top depth loop request) _ _ _ = _ at failed
    rw [failed] at balance
    exact ⟨[], by simp [Loop.asked], by simp, by simp, by
      simpa [crossCount, found, handedOn, allowance] using balance⟩
  case h_2 out ru returnVal ran =>
  change runEntrypoint wasm program (crossCtx src env top depth loop request) _ _ _ = _ at ran
  obtain ⟨outcome, ranOk, fewer⟩ := runEntrypoint_ok rfl ran
  have paid := metered.asked ranOk
  rw [metered.reported ranOk] at paid
  have within := metered.within program (crossCtx src env top depth loop request)
    request.entrypoint request.args (min request.fuel maxCrossCallFuel)
  rw [ran] at balance
  refine ⟨out.pendingCrossCalls, ?_, by simp, ?_, ?_⟩
  · rw [Loop.asked, map_append, asked_requests]
    rfl
  · have small := le_trans within (min_le_right _ _)
    exact (fewer.trans paid).trans (by simpa [crossCtx] using small)
  · simpa [crossCount, found, handedOn, allowance] using balance

/-- One level of the loop. -/
theorem level_spends (depth : Nat) (requests : List Queued) (loop : Loop State) :
    ∃ queued, Spends (requests.map Queued.toCrossCallRequest) loop
      (requests.foldl (crossCall wasm src env top depth) loop)
      (levelCount wasm src burned env top · depth requests loop) queued := by
  induction requests generalizing loop with
  | nil => exact ⟨[], by simp, by simp, by simp, by simp [levelCount]⟩
  | cons request rest ih =>
    obtain ⟨queued, step⟩ := crossCall_spends metered src env top depth loop request
    obtain ⟨more, later⟩ := ih _
    refine ⟨queued ++ more, ?_, ?_, ?_, ?_⟩
    · rw [List.foldl_cons, later.asked, step.asked, List.append_assoc]
    · have first := step.trace
      have rest := later.trace
      simp only [List.foldl_cons, List.map_cons, List.length_cons, List.length_nil] at first rest ⊢
      omega
    · have first := step.few
      have rest := later.few
      simp only [List.map_cons, List.length_cons, List.length_append, List.length_nil,
        add_mul] at first rest ⊢
      omega
    · have first := step.balance
      have rest := later.balance
      simp only [levelCount]
      rw [allowance_append, List.map_cons, ← List.singleton_append, allowance_append]
      omega

/-- The number of cross calls below one request, over so many levels. -/
def levelSizes : Nat → Nat
  | 0 => 0
  | remaining + 1 => 1 + maxCrossCallFuel * levelSizes remaining

theorem levels_spend (remaining : Nat) (loop : Loop State) :
    (crossLevels wasm src env top remaining depth loop).trace.length ≤
      loop.trace.length + loop.asked.length * levelSizes remaining ∧
    levelsCount wasm src burned env top .burned remaining depth loop +
        levelsCount wasm src burned env top .unspent remaining depth loop =
      allowance loop.asked + levelsCount wasm src burned env top .overdrawn remaining depth loop := by
  induction remaining generalizing depth loop with
  | zero =>
    refine ⟨le_add_right _ _, ?_⟩
    simp [levelsCount, idleCount_eq, allowance, Loop.asked, Function.comp_def]
  | succ remaining ih =>
    rw [crossLevels, levelsCount, levelsCount, levelsCount]
    split
    case isTrue empty =>
      simp [Loop.asked, allowance, isEmpty_iff.mp empty]
    case isFalse =>
    obtain ⟨queued, level⟩ := level_spends metered src env top depth loop.pending
      { loop with pending := [] }
    obtain ⟨size, fuel⟩ := @ih (depth + 1) (loop.pending.foldl _ { loop with pending := [] })
    rw [level.asked] at size fuel
    constructor
    · have below := mul_le_mul_right (levelSizes remaining) level.few
      have here := level.trace
      simp only [Loop.asked, map_nil, nil_append] at size below here ⊢
      rw [levelSizes, mul_add, ← mul_assoc]
      omega
    · have here := level.balance
      simp only [Loop.asked, map_nil, nil_append] at fuel here ⊢
      omega

/-- What the tree of a call burns and leaves is the fuel of the call and what its runs overdraw. -/
theorem callCount_balance (contractAddr callerAddr entrypoint : String) (args : List UInt8) :
    callBurned wasm src burned env contractAddr callerAddr entrypoint args +
        callCount wasm src burned env .unspent contractAddr callerAddr entrypoint args =
      env.fuel + callCount wasm src burned env .overdrawn contractAddr callerAddr entrypoint args := by
  unfold callBurned callCount
  split
  case h_1 => simp [Count.burned, Count.unspent, Count.overdrawn]
  case h_2 program found =>
  have entry := @runCount_balance _ _ wasm burned program (HostCtx.new contractAddr callerAddr
    env.blockHeight env.timestamp (src.state contractAddr)) entrypoint args env.fuel
  dsimp only
  split
  case h_1 error failed =>
    rw [failed, handedOn] at entry
    omega
  case h_2 out ruUsed returnVal ran =>
    have below := (@levels_spend _ _ _ _ 1 metered src env contractAddr (maxDepth - 1)
      (entryLoop contractAddr callerAddr out ruUsed)).2
    rw [asked_entryLoop] at below
    rw [ran, handedOn] at entry
    omega

end Spending

/-! ## A call that burns more than its fuel -/

/-- The contract `a` burns 1 unit. -/
def workOf (work : Nat) (isA : Bool) : Nat := if isA then 1 else work

/-- The contract `a` asks for one call of `b`.  A run with less fuel than its work burns it all and
fails. -/
def handingWasm (handed work : Nat) : Wasm Unit Bool where
  compile bytes := .ok (bytes == [1])
  run program _ _ _ fuel :=
    if fuel < workOf work program then .error .fuelExhausted
    else .ok {
      state := ()
      events := []
      transfers := []
      crossCalls := if program then [⟨"b", "run", [], handed⟩] else []
      ruUsed := workOf work program
      returnVal := [] }

def handingMeter (work : Nat) : Meter Unit Bool :=
  fun program _ _ _ fuel => min (workOf work program) fuel

theorem handing_metered (handed work : Nat) : Metered (handingWasm handed work) (handingMeter work) where
  within _ _ _ _ _ := min_le_right _ _
  reported ran := by
    dsimp only [handingWasm] at ran
    split at ran <;> cases ran
    case isFalse enough => exact (min_eq_left (Nat.not_lt.mp enough)).symm
  asked {program _ _ _ _ _} ran := by
    dsimp only [handingWasm] at ran
    split at ran <;> cases ran
    cases program <;> simp [workOf]

end EgoChain.Vm
