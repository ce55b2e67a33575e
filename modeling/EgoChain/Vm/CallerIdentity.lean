import EgoChain.Vm.Executor

/-!
# Who a contract is told called it

Every cross call that a call of a contract causes is executed with that contract
as its caller, at whatever level of the tree it was queued.  A contract therefore
sees who queued its call exactly as long as no other contract than the one called
from outside queues a cross call that is executed.
-/

namespace EgoChain.Vm

open List

variable {State Module : Type} {wasm : Wasm State Module} {src : ContractSource State}
  {env : ExecEnv} {top : String} {depth : Nat}

/-- The contract has code that compiles, so a call of it is executed. -/
def Runs (wasm : Wasm State Module) (src : ContractSource State) (contract : String) : Prop :=
  (moduleOf wasm src contract).isSome

/-- The entry is the execution of a request of the list. -/
structure Answers (wasm : Wasm State Module) (src : ContractSource State) (top : String)
    (depth : Nat) (requests : List Queued) (entry : Executed) : Prop where
  depth_eq : entry.depth = depth
  caller_eq : entry.caller = top
  runs : Runs wasm src entry.contract
  asked : ∃ request ∈ requests, request.queuer = entry.queuer ∧ request.contractAddr = entry.contract

variable {entry : Executed} (loop : Loop State)

theorem Answers.mono {requests more : List Queued}
    (answers : Answers wasm src top depth requests entry) (subset : requests ⊆ more) :
    Answers wasm src top depth more entry := by
  obtain ⟨request, mem, same⟩ := answers.asked
  exact { answers with asked := ⟨request, subset mem, same⟩ }

/-- What executing a list of requests adds to the loop. -/
structure Adds (wasm : Wasm State Module) (src : ContractSource State) (top : String)
    (depth : Nat) (requests : List Queued) (loop next : Loop State) (new : List Executed) :
    Prop where
  trace : next.trace = loop.trace ++ new
  pending : next.pending = loop.pending ++ new.flatMap Executed.requests
  answers : ∀ entry ∈ new, Answers wasm src top depth requests entry
  answered : ∀ request ∈ requests, Runs wasm src request.contractAddr →
    ∃ entry ∈ new, entry.queuer = request.queuer

theorem crossCall_adds (request : Queued) : ∃ new, Adds wasm src top depth [request] loop
      (crossCall wasm src env top depth loop request) new := by
  unfold crossCall
  split
  case h_1 absent =>
    refine ⟨[], ⟨by simp, by simp, by simp, ?_⟩⟩
    intro other mem runs
    rw [mem_singleton.mp mem, Runs, absent] at runs
    cases runs
  case h_2 program found =>
    have runs : Runs wasm src request.contractAddr := by
      rw [Runs, found]
      rfl
    have answers (queued : List CrossCallRequest) :
        ∀ entry ∈ [(⟨request.contractAddr, top, request.queuer, depth, queued⟩ : Executed)],
          Answers wasm src top depth [request] entry :=
      forall_mem_singleton.mpr ⟨rfl, rfl, runs, request, mem_singleton_self _, rfl, rfl⟩
    have answered (queued : List CrossCallRequest) : ∀ other ∈ [request],
        Runs wasm src other.contractAddr →
        ∃ entry ∈ [(⟨request.contractAddr, top, request.queuer, depth, queued⟩ : Executed)],
          entry.queuer = other.queuer :=
      forall_mem_singleton.mpr fun _ => ⟨_, mem_singleton_self _, rfl⟩
    dsimp only
    split
    case h_1 => exact ⟨_, ⟨rfl, by simp [Executed.requests], answers _, answered _⟩⟩
    case h_2 out ru returnVal ran =>
      exact ⟨_, ⟨rfl, by simp [HostCtx.new], answers _, answered _⟩⟩

/-- One level of the loop: each request that can run is executed once it is reached. -/
theorem foldl_crossCall_adds (requests : List Queued) : ∃ new, Adds wasm src top depth requests loop
      (requests.foldl (crossCall wasm src env top depth) loop) new := by
  induction requests generalizing loop with
  | nil => exact ⟨[], ⟨by simp, by simp, by simp, by simp⟩⟩
  | cons request rest ih =>
    obtain ⟨new, step⟩ : ∃ new, Adds wasm src top depth [request] loop
        (crossCall wasm src env top depth loop request) new := crossCall_adds loop request
    obtain ⟨more, later⟩ := ih _
    refine ⟨new ++ more, ⟨?_, ?_, ?_, ?_⟩⟩
    · rw [foldl_cons, later.trace, step.trace, append_assoc]
    · rw [foldl_cons, later.pending, step.pending, flatMap_append, append_assoc]
    · exact forall_mem_append.mpr ⟨fun entry mem => (step.answers entry mem).mono (by simp),
        fun entry mem => (later.answers entry mem).mono (subset_cons_self _ _)⟩
    · intro other mem runs
      rcases mem_cons.mp mem with rfl | isLater
      · obtain ⟨entry, there, same⟩ := step.answered other (mem_singleton_self _) runs
        exact ⟨entry, mem_append_left _ there, same⟩
      · obtain ⟨entry, there, same⟩ := later.answered other isLater runs
        exact ⟨entry, mem_append_right _ there, same⟩

/-- The entry was executed for a request that a contract of the list queued above the depth
limit. -/
def HasParent (wasm : Wasm State Module) (src : ContractSource State) (limit : Nat)
    (entries : List Executed) (entry : Executed) : Prop :=
  ∃ parent ∈ entries, parent.contract = entry.queuer ∧ parent.depth + 1 < limit ∧
    ∃ request ∈ parent.queued, Runs wasm src request.contractAddr

/-- The levels of the loop: what is executed was queued by a contract executed before, is told
that `top` called it, and nothing that can run is left out above the depth limit. -/
theorem crossLevels_spec (remaining : Nat) (last : List Executed)
    (pending : loop.pending = last.flatMap Executed.requests)
    (level : ∀ entry ∈ last, entry.depth + 1 = depth) :
    ∃ more, (crossLevels wasm src env top remaining depth loop).trace = loop.trace ++ more ∧
      (∀ entry ∈ more, depth ≤ entry.depth ∧ entry.caller = top ∧
        HasParent wasm src (depth + remaining) (last ++ more) entry) ∧
      ∀ parent ∈ last ++ more, parent.depth + 1 < depth + remaining →
        ∀ request ∈ parent.queued, Runs wasm src request.contractAddr →
        ∃ entry ∈ more, entry.queuer = parent.contract := by
  induction remaining generalizing depth loop last with
  | zero =>
    refine ⟨[], by simp [crossLevels], by simp, fun parent mem above => ?_⟩
    have atLevel := level parent (by simpa using mem)
    omega
  | succ remaining ih =>
    rw [crossLevels]
    split
    case isTrue empty =>
      -- No contract of the last level queued anything.
      refine ⟨[], by simp, by simp, fun parent mem _ request queued => ?_⟩
      have asked : (⟨request, parent.contract⟩ : Queued) ∈ loop.pending := by
        rw [pending]
        exact mem_flatMap.mpr ⟨parent, by simpa using mem, mem_map.mpr ⟨request, queued, rfl⟩⟩
      rw [isEmpty_iff.mp empty] at asked
      cases asked
    case isFalse =>
      obtain ⟨new, adds⟩ : ∃ new, Adds wasm src top depth loop.pending { loop with pending := [] }
          (loop.pending.foldl (crossCall wasm src env top depth) { loop with pending := [] })
          new := foldl_crossCall_adds _ loop.pending
      obtain ⟨more, trace, parents, complete⟩ := @ih (depth + 1) _ new (by simpa using adds.pending)
        (fun entry mem => by rw [(adds.answers entry mem).depth_eq])
      refine ⟨new ++ more, by rw [trace, adds.trace, append_assoc],
        fun entry mem => ?_, fun parent mem above request queued runs => ?_⟩
      · rcases mem_append.mp mem with isNew | isLater
        · have answers := adds.answers entry isNew
          obtain ⟨request, asked, byQueuer, ofContract⟩ := answers.asked
          rw [pending] at asked
          obtain ⟨parent, isParent, inQueue⟩ := mem_flatMap.mp asked
          obtain ⟨queued, inQueued, rfl⟩ := mem_map.mp inQueue
          have atLevel := level parent isParent
          exact ⟨answers.depth_eq.ge, answers.caller_eq, parent,
            mem_append_left _ isParent, byQueuer, by omega, queued, inQueued,
            ofContract ▸ answers.runs⟩
        · obtain ⟨deep, caller, parent, isParent, byQueuer, above, rest⟩ :=
            parents entry isLater
          exact ⟨by omega, caller, parent, mem_append_right _ isParent, byQueuer, by omega, rest⟩
      · rcases mem_append.mp mem with isLast | isNew
        · have asked : (⟨request, parent.contract⟩ : Queued) ∈ loop.pending := by
            rw [pending]
            exact mem_flatMap.mpr ⟨parent, isLast, mem_map.mpr ⟨request, queued, rfl⟩⟩
          obtain ⟨entry, isEntry, same⟩ := adds.answered _ asked runs
          exact ⟨entry, mem_append_left _ isEntry, same⟩
        · obtain ⟨entry, isEntry, same⟩ :=
            complete parent isNew (by omega) request queued runs
          exact ⟨entry, mem_append_right _ isEntry, same⟩

/-- The executed contracts of a call, in order. -/
def executedBy (effects : Except VmError (CallEffects State)) : List Executed :=
  match effects with
  | .ok effects => effects.trace
  | .error _ => []

/-- Every executed cross call is told who queued it. -/
def CallersAreQueuers (trace : List Executed) : Prop :=
  ∀ entry ∈ trace, entry.depth ≠ 0 → entry.caller = entry.queuer

/-- Above the last level, no contract but `top` queues a call of a contract that can run. -/
def OnlyTopCalls (wasm : Wasm State Module) (src : ContractSource State) (top : String)
    (trace : List Executed) : Prop :=
  ∀ entry ∈ trace, entry.contract ≠ top → entry.depth + 1 < maxDepth →
    ∀ request ∈ entry.queued, ¬ Runs wasm src request.contractAddr

/-- The levels below a call see their queuers exactly if only the called contract calls. -/
theorem crossLevels_callers_iff (entry : Executed) (atTop : entry.depth = 0)
    (trace : loop.trace = [entry])
    (pending : loop.pending = entry.requests) :
    CallersAreQueuers (crossLevels wasm src env top (maxDepth - 1) 1 loop).trace ↔
      OnlyTopCalls wasm src top (crossLevels wasm src env top (maxDepth - 1) 1 loop).trace := by
  obtain ⟨more, whole, parents, complete⟩ := @crossLevels_spec _ _ _ src env
    top 1 loop _ [entry] (by simp [pending]) (by simp [atTop])
  rw [whole, trace]
  constructor
  · intro seen parent mem other above request queued runs
    obtain ⟨child, isChild, byParent⟩ := complete parent mem above request queued runs
    obtain ⟨deep, caller, -⟩ := parents child isChild
    have told := seen child (mem_append_right _ isChild) (by omega)
    exact other (by rw [← byParent, ← told, caller])
  · intro onlyTop child mem deep
    rcases mem_append.mp mem with isEntry | isChild
    · rw [mem_singleton.mp isEntry] at deep
      exact absurd atTop deep
    · obtain ⟨-, caller, parent, isParent, byQueuer, above, request, queued, runs⟩ :=
        parents child isChild
      by_contra unseen
      refine onlyTop parent isParent (fun same => unseen ?_) above request queued runs
      rw [caller, ← byQueuer, same]

/-- In every call each executed cross call is told who queued it exactly if no contract but
the one called from outside queues a cross call that is executed. -/
theorem cross_callers_are_queuers_iff (wasm : Wasm State Module) (src : ContractSource State)
    (env : ExecEnv) (contractAddr callerAddr entrypoint : String) (args : List UInt8) :
    CallersAreQueuers (executedBy (callOn wasm src env contractAddr callerAddr entrypoint args)) ↔
      OnlyTopCalls wasm src contractAddr
        (executedBy (callOn wasm src env contractAddr callerAddr entrypoint args)) := by
  unfold callOn
  split
  case h_1 => simp [executedBy, CallersAreQueuers, OnlyTopCalls]
  case h_2 bytes =>
  split
  case h_1 => simp [executedBy, CallersAreQueuers, OnlyTopCalls]
  case h_2 program compiled =>
  dsimp only
  split
  case h_1 | h_2 =>
    refine iff_of_true (by simp [executedBy, CallersAreQueuers, failedCall]) ?_
    intro entry mem _ _ request queued
    rw [mem_singleton.mp mem] at queued
    cases queued
  case h_3 out ruUsed returnVal ran =>
    split <;> exact crossLevels_callers_iff _ _ rfl rfl rfl

/-! ## A contract that is told the wrong caller -/

/-- The code of a contract is its name; `a` calls `b`, and `b` calls `c`. -/
def chainWasm : Wasm Unit String where
  compile bytes := .ok (if bytes = [1] then "a" else if bytes = [2] then "b" else "c")
  run program _ _ _ _ := .ok {
    state := ()
    events := []
    transfers := []
    crossCalls :=
      if program = "a" then [⟨"b", "run", [], 1000⟩]
      else if program = "b" then [⟨"c", "run", [], 1000⟩]
      else []
    ruUsed := 1
    returnVal := [] }

def chainSource : ContractSource Unit where
  code contract :=
    if contract = "a" then some [1] else if contract = "b" then some [2]
    else if contract = "c" then some [3] else none
  state _ := ()

/-- Contract `c` is called by `b` and told that `a` called it. -/
theorem third_contract_sees_top_contract :
    ∃ entry ∈ executedBy (callOn chainWasm chainSource ⟨7, 0, 1000, false⟩ "a" "user" "run" []),
      entry.contract = "c" ∧ entry.queuer = "b" ∧ entry.caller = "a" := by
  decide

end EgoChain.Vm
