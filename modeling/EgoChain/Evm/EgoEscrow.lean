import EgoChain.Foundations.Totals

/-!
# The escrow contract on the EVM

`EgoEscrow.sol` holds the coins or tokens of a seller until they are released to
the buyer or returned.  The world around it is a ledger of exact balances, and
everybody but the contract may act at will: move what they own, call the
contract, and, when the contract pays somebody or calls a token, do more of the
same before they answer.  The coin of the chain is the token at address 0.

The lists `parts`, `withdrawals` and `transfers` record what happened and are
read by nobody: the parts of the payouts, the sums withdrawn, and every movement
out of the contract's account that a ledger made.
-/

namespace EgoChain.Evm

open EgoChain.Foundations

abbrev EvmAddress := BitVec 160
abbrev Bytes32 := BitVec 256

/-- `State.None` is an absent entry of the mapping. -/
inductive EscrowState where
  | funded
  | released
  | refunded
  deriving DecidableEq

def maxFeeBps : Nat := 1000
def minFallback : Nat := 30 * 86400
def maxFallback : Nat := 365 * 86400

structure Escrow where
  seller : EvmAddress
  openedAt : Nat
  state : EscrowState
  frozen : Bool
  buyer : EvmAddress
  fallbackAt : Nat
  arbiter : EvmAddress
  token : EvmAddress
  total : Nat
  fee : Nat
  positive : total ≠ 0
  feeBound : fee * 10000 ≤ total * maxFeeBps
  deriving DecidableEq

theorem Escrow.fee_lt (escrow : Escrow) : escrow.fee < escrow.total := by
  have positive := escrow.positive
  have bound := escrow.feeBound
  unfold maxFeeBps at bound
  omega

inductive Revert where
  | unknownEscrow
  | notFunded
  | alreadyUsed
  | badParty
  | badAmount
  | badFallback
  | notAllowed
  | tooEarly
  | badSignature
  | transferFailed
  | reentrant
  /-- A revert without a name: arithmetic, a missing function, value that is not accepted. -/
  | panic
  deriving DecidableEq

structure Transfer where
  token : EvmAddress
  target : EvmAddress
  amount : Nat
  deriving DecidableEq

/-- One part of a payout, and whether it was sent or is owed. -/
structure Part extends Transfer where
  key : Bytes32
  sent : Bool
  deriving DecidableEq

structure World where
  escrows : KeyedMap Bytes32 Escrow
  owed : KeyedMap (EvmAddress × EvmAddress) Nat
  entered : Bool
  balance : EvmAddress → EvmAddress → Nat
  parts : List Part
  withdrawals : List Transfer
  transfers : List Transfer

variable (balance : EvmAddress → EvmAddress → Nat)

def World.initial : World where
  escrows := ∅
  owed := ∅
  entered := false
  balance := balance
  parts := []
  withdrawals := []
  transfers := []

/-- What is fixed when the contract is deployed, and the functions of the chain it uses. -/
structure Deployment where
  self : EvmAddress
  feeReceiver : EvmAddress
  /-- `keccak256(abi.encode(tradeId, seller))`. -/
  keyOf : Bytes32 → EvmAddress → Bytes32
  /-- The signer of the digest of a key and an action, or 0. -/
  ecrecover : Bytes32 → Nat → (v r s : Nat) → EvmAddress
  /-- The contracts that answer `balanceOf`. -/
  isToken : EvmAddress → Bool

/-- How the callee of an external call behaves. -/
structure Hook where
  early : World → World
  moves : Bool
  late : World → World
  ok : Bool

structure EvmSignature where
  length : Nat
  r : Nat
  s : Nat
  v : UInt8
  deriving DecidableEq

inductive Op where
  | open' (tradeId : Bytes32) (buyer arbiter token : EvmAddress) (total fee : BitVec 128)
      (fallbackDelay : UInt64)
  | release (key : Bytes32)
  | cancel (key : Bytes32)
  | resolve (key : Bytes32) (toBuyer : Bool)
  | freeze (key : Bytes32)
  | reclaim (key : Bytes32)
  | releaseFor (key : Bytes32) (sig : EvmSignature)
  | cancelFor (key : Bytes32) (sig : EvmSignature)
  | resolveFor (key : Bytes32) (toBuyer : Bool) (sig : EvmSignature)
  | freezeFor (key : Bytes32) (sig : EvmSignature)
  | withdraw (token : EvmAddress)

def Op.payable : Op → Bool
  | .open' .. => true
  | _ => false

structure Msg where
  sender : EvmAddress
  value : Nat
  /-- `block.timestamp`. -/
  timestamp : Nat
  op : Op

def maxU256 : Nat := 2 ^ 256 - 1
def maxU64 : Nat := 2 ^ 64 - 1

/-! ## Ledgers -/

/-- The balances after a ledger moved an amount. -/
def moved (token source target : EvmAddress) (amount : Nat) :
    EvmAddress → EvmAddress → Nat := fun other account =>
  if other ≠ token ∨ source = target then balance other account
  else if account = source then balance other account - amount
  else if account = target then balance other account + amount
  else balance other account

namespace World

/-- A ledger moves an amount, if the source has it. -/
def transfer (d : Deployment) (world : World) (token source target : EvmAddress) (amount : Nat) :
    World :=
  if amount ≤ world.balance token source then
    { world with
      balance := moved world.balance token source target amount
      transfers :=
        if source = d.self then world.transfers ++ [⟨token, target, amount⟩]
        else world.transfers }
  else world

/-- `token.call`: the token may act before and after it moves the amount, or not move it, and
when it reverts nothing of that happened. -/
def tokenCall (d : Deployment) (world : World) (hook : Hook)
    (token source target : EvmAddress) (amount : Nat) : Bool × World :=
  if hook.ok then
    let world := hook.early world
    let world := if hook.moves then world.transfer d token source target amount else world
    (true, hook.late world)
  else (false, world)

def owedTo (world : World) (token account : EvmAddress) : Nat :=
  (world.owed.lookup (token, account)).getD 0

/-! ## Payments -/

def received (d : Deployment) (world : World) (token : EvmAddress) (before : Nat) : Nat :=
  let afterBalance := world.balance token d.self
  if afterBalance > before then afterBalance - before else 0

/-- Whether the amount left the contract. -/
def send (d : Deployment) (world : World) (hook : Hook) (token target : EvmAddress)
    (amount : Nat) : Except Revert (World × Bool) :=
  if token = 0 then
    -- The contract itself takes no plain payment, and a failed call moves nothing.
    if hook.ok = true ∧ target ≠ d.self ∧ amount ≤ world.balance 0 d.self then
      .ok (hook.late (world.transfer d 0 d.self target amount), true)
    else .ok (world, false)
  else if d.isToken token = false then .error .panic
  else
    let before := world.balance token d.self
    let (called, world) := world.tokenCall d hook token d.self target amount
    let afterBalance := world.balance token d.self
    if afterBalance = before then .ok (world, false)
    else if called = false ∨ afterBalance > before ∨ before - afterBalance ≠ amount then
      .error .transferFailed
    else .ok (world, true)

def pay (d : Deployment) (world : World) (hook : Hook) (key : Bytes32)
    (token target : EvmAddress) (amount : Nat) : Except Revert World :=
  match world.send d hook token target amount with
  | .error revert => .error revert
  | .ok (world, true) =>
    .ok { world with parts := world.parts ++ [⟨⟨token, target, amount⟩, key, true⟩] }
  | .ok (world, false) =>
    let sum := world.owedTo token target + amount
    if sum > maxU256 then .error .panic
    else
      .ok { world with
        owed := world.owed.insert (token, target) sum
        parts := world.parts ++ [⟨⟨token, target, amount⟩, key, false⟩] }

def setState (world : World) (key : Bytes32) (escrow : Escrow) (state : EscrowState) : World :=
  { world with escrows := world.escrows.insert key { escrow with state := state } }

-- The guard keeps the escrow as it is while the first part is paid, so the second part is
-- read from the same record.
variable (d : Deployment) (world : World) (key : Bytes32) (escrow : Escrow)

def release (first second : Hook) : Except Revert World :=
  match (world.setState key escrow .released).pay d first key escrow.token escrow.buyer
      (escrow.total - escrow.fee) with
  | .error revert => .error revert
  | .ok world =>
    if 0 < escrow.fee then world.pay d second key escrow.token d.feeReceiver escrow.fee
    else .ok world

def refund (hook : Hook) : Except Revert World :=
  (world.setState key escrow .refunded).pay d hook key escrow.token escrow.seller escrow.total

def freeze (world : World) (key : Bytes32) (escrow : Escrow) : Except Revert World :=
  if escrow.frozen then .error .notAllowed
  else .ok { world with escrows := world.escrows.insert key { escrow with frozen := true } }

/-! ## Entry points -/

/-- `_funded`. -/
def funded (world : World) (key : Bytes32) : Except Revert Escrow :=
  match world.escrows.lookup key with
  | none => .error .unknownEscrow
  | some escrow => if escrow.state = .funded then .ok escrow else .error .notFunded

/-- `_requireSigner`. -/
def signerOk (d : Deployment) (key : Bytes32) (action : Nat) (sig : EvmSignature)
    (expected : EvmAddress) : Bool :=
  let v := if sig.v.toNat < 27 then sig.v.toNat + 27 else sig.v.toNat
  let halfOrder := 0x7fffffffffffffffffffffffffffffff5d576e7357a4501ddfe92f46681b20a0
  let signer := d.ecrecover key action v sig.r sig.s
  sig.length = 65 ∧ (v = 27 ∨ v = 28) ∧ sig.s ≤ halfOrder ∧ signer ≠ 0 ∧ signer = expected

/-- Take the deposit of a new escrow. -/
def deposit (d : Deployment) (world : World) (msg : Msg) (token : EvmAddress) (total : Nat)
    (hook : Hook) : Except Revert World :=
  if token = 0 then if msg.value ≠ total then .error .badAmount else .ok world
  else if msg.value ≠ 0 then .error .badAmount
  else if d.isToken token = false then .error .panic
  else
    let before := world.balance token d.self
    let (called, world) := world.tokenCall d hook token msg.sender d.self total
    if called = false then .error .transferFailed
    else if world.received d token before ≠ total then .error .badAmount
    else .ok world

def openEscrow (d : Deployment) (world : World) (msg : Msg) (tradeId : Bytes32)
    (buyer arbiter token : EvmAddress) (total fee : Nat) (fallbackDelay : Nat) (hook : Hook) :
    Except Revert World :=
  if buyer = 0 ∨ arbiter = 0 then .error .badParty
  else if buyer = msg.sender ∨ arbiter = msg.sender ∨ arbiter = buyer then .error .badParty
  else if amounts : total = 0 ∨ total * maxFeeBps < fee * 10000 then .error .badAmount
  else if fallbackDelay < minFallback ∨ maxFallback < fallbackDelay then .error .badFallback
  else if (world.escrows.lookup (d.keyOf tradeId msg.sender)).isSome then .error .alreadyUsed
  else
    match world.deposit d msg token total hook with
    | .error revert => .error revert
    | .ok world =>
      let nowTs := msg.timestamp % 2 ^ 64
      if nowTs + fallbackDelay > maxU64 then .error .panic
      else
        .ok { world with
          escrows := world.escrows.insert (d.keyOf tradeId msg.sender) {
            seller := msg.sender
            openedAt := nowTs
            state := .funded
            frozen := false
            buyer := buyer
            fallbackAt := nowTs + fallbackDelay
            arbiter := arbiter
            token := token
            total := total
            fee := fee
            positive := fun zero => amounts (Or.inl zero)
            feeBound := Nat.le_of_not_lt fun above => amounts (Or.inr above) } }

def withdraw (d : Deployment) (world : World) (sender token : EvmAddress) (hook : Hook) :
    Except Revert World :=
  let amount := world.owedTo token sender
  if amount = 0 then .error .badAmount
  else
    match { world with owed := world.owed.insert (token, sender) 0 }.send d hook token sender
        amount with
    | .error revert => .error revert
    | .ok (_, false) => .error .transferFailed
    | .ok (world, true) =>
      .ok { world with withdrawals := world.withdrawals ++ [⟨token, sender, amount⟩] }

/-- An operation on a funded escrow that only some may ask for. -/
def onFunded (world : World) (key : Bytes32) (allowed : Escrow → Except Revert Unit)
    (act : Escrow → Except Revert World) : Except Revert World :=
  match world.funded key with
  | .error revert => .error revert
  | .ok escrow =>
    match allowed escrow with
    | .error revert => .error revert
    | .ok () => act escrow

def require (condition : Bool) (revert : Revert) : Except Revert Unit :=
  if condition then .ok () else .error revert

def mayReclaim (msg : Msg) (escrow : Escrow) : Except Revert Unit :=
  if msg.sender ≠ escrow.seller then .error .notAllowed
  else if escrow.frozen then .error .notAllowed
  else if msg.timestamp < escrow.fallbackAt then .error .tooEarly
  else .ok ()

variable (msg : Msg) (first second : Hook)

def body : Except Revert World :=
  match msg.op with
  | .open' tradeId buyer arbiter token total fee fallbackDelay =>
    world.openEscrow d msg tradeId buyer arbiter token total.toNat fee.toNat fallbackDelay.toNat
      first
  | .release key =>
    world.onFunded key (fun escrow => require (msg.sender = escrow.seller) .notAllowed)
      fun escrow => world.release d key escrow first second
  | .cancel key =>
    world.onFunded key (fun escrow => require (msg.sender = escrow.buyer) .notAllowed)
      fun escrow => world.refund d key escrow first
  | .resolve key toBuyer =>
    world.onFunded key (fun escrow => require (msg.sender = escrow.arbiter) .notAllowed) fun escrow =>
        if toBuyer then world.release d key escrow first second
        else world.refund d key escrow first
  | .freeze key =>
    world.onFunded key (fun escrow =>
        require (msg.sender = escrow.buyer ∨ msg.sender = escrow.arbiter) .notAllowed)
      fun escrow => world.freeze key escrow
  | .reclaim key =>
    world.onFunded key (mayReclaim msg) fun escrow => world.refund d key escrow first
  | .releaseFor key sig =>
    world.onFunded key (fun escrow => require (signerOk d key 1 sig escrow.seller) .badSignature)
      fun escrow => world.release d key escrow first second
  | .cancelFor key sig =>
    world.onFunded key (fun escrow => require (signerOk d key 2 sig escrow.buyer) .badSignature)
      fun escrow => world.refund d key escrow first
  | .resolveFor key toBuyer sig =>
    world.onFunded key (fun escrow =>
        require (signerOk d key (if toBuyer then 3 else 4) sig escrow.arbiter) .badSignature)
      fun escrow =>
        if toBuyer then world.release d key escrow first second
        else world.refund d key escrow first
  | .freezeFor key sig =>
    world.onFunded key (fun escrow => require (signerOk d key 5 sig escrow.buyer) .badSignature)
      fun escrow => world.freeze key escrow
  | .withdraw token => world.withdraw d msg.sender token first

/-- A call of the contract: the value arrives, and the guard is held while the body runs. -/
def call : Except Revert World :=
  if world.balance 0 msg.sender < msg.value then .error .panic
  else if msg.value ≠ 0 ∧ msg.op.payable = false then .error .panic
  else
    let world := world.transfer d 0 msg.sender d.self msg.value
    if world.entered then .error .reentrant
    else
      match { world with entered := true }.body d msg first second with
      | .error revert => .error revert
      | .ok world => .ok { world with entered := false }

end World

/-! ## Runs -/

/-- What the callee of an external call does, with acts of its own inside. -/
structure Reply (α : Type) where
  early : List α
  moves : Bool
  late : List α
  ok : Bool

/-- An act of anybody but the contract.  A call brings along how the callees of the at most
two external calls it causes will behave. -/
inductive Act where
  | move (token source target : EvmAddress) (amount : Nat)
  | call (msg : Msg) (first second : Reply Act)

mutual

/-- A call that reverts leaves the world as it was. -/
def Act.exec (d : Deployment) : Act → World → World
  | .move token source target amount, world =>
    if source = d.self then world else world.transfer d token source target amount
  | .call msg ⟨early, moves, late, ok⟩ ⟨earlier, moves', later, ok'⟩, world =>
    if msg.sender = d.self then world
    else
      match world.call d msg ⟨execAll d early, moves, execAll d late, ok⟩
          ⟨execAll d earlier, moves', execAll d later, ok'⟩ with
      | .ok world => world
      | .error _ => world

def execAll (d : Deployment) : List Act → World → World
  | [], world => world
  | act :: rest, world => execAll d rest (act.exec d world)

end

end EgoChain.Evm
