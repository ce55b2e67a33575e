import EgoChain.Evm.EgoEscrow
import EgoChain.Foundations.Checks

/-!
# The escrow contract is solvent and pays once

While the contract is entered every call of it reverts, so its callees can only
move balances of others around, and they cannot lower the contract's own.  Each
entry point then keeps the books: what is funded and owed is covered by the
balance, the parts paid for an escrow are those its state calls for, and what is
owed is what was not sent.
-/

namespace EgoChain.Evm

open EgoChain.Foundations Nat KeyedMap

/-! ## What the callees can do -/

/-- The contract's own storage and records are the same. -/
structure SameBooks (world next : World) : Prop where
  escrows : next.escrows = world.escrows
  owed : next.owed = world.owed
  entered : next.entered = world.entered
  parts : next.parts = world.parts
  withdrawals : next.withdrawals = world.withdrawals

theorem SameBooks.refl (world : World) : SameBooks world world := ⟨rfl, rfl, rfl, rfl, rfl⟩

variable {world last : World} {d : Deployment} {token source : EvmAddress} {key : Bytes32}
  {escrow : Escrow} {next : World} {target : EvmAddress} {amount : Nat}

theorem SameBooks.trans (first : SameBooks world next) (second : SameBooks next last) :
    SameBooks world last where
  escrows := second.escrows.trans first.escrows
  owed := second.owed.trans first.owed
  entered := second.entered.trans first.entered
  parts := second.parts.trans first.parts
  withdrawals := second.withdrawals.trans first.withdrawals

/-- A change that others can bring about while the contract is entered. -/
structure Outside (d : Deployment) (world next : World) : Prop extends SameBooks world next where
  transfers : next.transfers = world.transfers
  balance : ∀ token, world.balance token d.self ≤ next.balance token d.self

theorem Outside.refl (d : Deployment) (world : World) : Outside d world world :=
  { SameBooks.refl world with transfers := rfl, balance := fun _ => le_refl _ }

theorem Outside.trans (first : Outside d world next) (second : Outside d next last) :
    Outside d world last :=
  { first.toSameBooks.trans second.toSameBooks with
    transfers := second.transfers.trans first.transfers
    balance := fun token => (first.balance token).trans (second.balance token) }

theorem sameBooks_transfer (d : Deployment) (world : World) (token source target : EvmAddress)
    (amount : Nat) : SameBooks world (world.transfer d token source target amount) := by
  unfold World.transfer
  split
  · exact ⟨rfl, rfl, rfl, rfl, rfl⟩
  · exact SameBooks.refl world

theorem outside_transfer (foreign : source ≠ d.self) :
    Outside d world (world.transfer d token source target amount) := by
  refine { sameBooks_transfer d world token source target amount with
    transfers := ?_, balance := fun other => ?_ }
  · unfold World.transfer
    split <;> rfl
  · unfold World.transfer
    split
    case isFalse => exact le_refl _
    case isTrue =>
    -- nobody's ledger entry falls when somebody else pays
    dsimp only
    rw [moved, if_neg foreign.symm]
    split
    · exact le_refl _
    · split
      · exact le_add_right _ _
      · exact le_refl _

theorem call_of_entered (entered : world.entered = true) (msg : Msg) (first second : Hook) :
    ∃ revert, world.call d msg first second = .error revert := by
  unfold World.call
  have held := (sameBooks_transfer d world 0 msg.sender d.self msg.value).entered
  rw [entered] at held
  repeat' split
  any_goals exact ⟨_, rfl⟩
  rw [if_pos held]
  exact ⟨_, rfl⟩

theorem exec_of_entered (entered : world.entered = true) (act : Act) :
    Outside d world (act.exec d world) := by
  cases act with
  | move token source target amount =>
    rw [Act.exec]
    split
    case isTrue => exact Outside.refl d world
    case isFalse foreign => exact outside_transfer foreign
  | call msg first second =>
    obtain ⟨early, moves, late, ok⟩ := first
    obtain ⟨earlier, moves', later, ok'⟩ := second
    rw [Act.exec]
    split
    · exact Outside.refl d world
    · obtain ⟨revert, reverts⟩ := call_of_entered (d := d) entered msg
        ⟨execAll d early, moves, execAll d late, ok⟩
        ⟨execAll d earlier, moves', execAll d later, ok'⟩
      rw [reverts]
      exact Outside.refl d world

variable (transfers : List Transfer) (acts : List Act)

theorem execAll_of_entered (entered : world.entered = true) :
    Outside d world (execAll d acts world) := by
  induction acts generalizing world with
  | nil =>
    exact Outside.refl d world
  | cons act rest ih =>
    have step := exec_of_entered (d := d) entered act
    exact step.trans (ih (step.entered.trans entered))

/-- The callee only does what others can do. -/
def Hook.Tame (d : Deployment) (hook : Hook) : Prop :=
  ∀ world, world.entered = true → Outside d world (hook.early world) ∧ Outside d world (hook.late world)

/-! ## Payments -/

/-- The outcome of a payment: it lowers the balance only if it was sent, and then it is among
the movements of the ledger. -/
structure Sends (d : Deployment) (transfer : Transfer) (world next : World) (sent : Bool) :
    Prop extends SameBooks world next where
  balance : ∀ token, world.balance token d.self ≤ next.balance token d.self +
    if sent = true ∧ token = transfer.token then transfer.amount else 0
  transfers : ∀ other, world.transfers.count other +
    (if sent = true ∧ other = transfer then 1 else 0) ≤ next.transfers.count other

section Payments

variable {hook : Hook} {sent : Bool}

theorem transfer_from_self (target : EvmAddress) (enough : amount ≤ world.balance token d.self) :
    Sends d ⟨token, target, amount⟩ world (world.transfer d token d.self target amount) true := by
  refine { sameBooks_transfer d world token d.self target amount with
    balance := fun other => ?_, transfers := fun other => ?_ }
  · rw [World.transfer, if_pos enough]
    dsimp only [moved]
    by_cases same : other = token
    · simp only [same, and_self, if_true]
      split
      · exact le_add_right _ _
      · omega
    · simp [same]
  · rw [World.transfer, if_pos enough]
    by_cases same : other = ⟨token, target, amount⟩
    · simp [same]
    · simp [same]

variable {transfer : Transfer}

theorem Sends.then_outside (sends : Sends d transfer world next sent)
    (outside : Outside d next last) : Sends d transfer world last sent :=
  { sends.toSameBooks.trans outside.toSameBooks with
    balance := fun token => (sends.balance token).trans (Nat.add_le_add_right (outside.balance token) _)
    transfers := fun other => outside.transfers ▸ sends.transfers other }

theorem Sends.after_outside (outside : Outside d world next)
    (sends : Sends d transfer next last sent) : Sends d transfer world last sent :=
  { outside.toSameBooks.trans sends.toSameBooks with
    balance := fun token => (outside.balance token).trans (sends.balance token)
    transfers := fun other => outside.transfers ▸ sends.transfers other }

variable (transfer)

theorem Outside.unsent (outside : Outside d world next) : Sends d transfer world next false :=
  { outside.toSameBooks with
    balance := fun token => by simpa using outside.balance token
    transfers := fun other => by simp [outside.transfers] }

/-- A token that is called moves the amount or not; it can do no more to the contract. -/
theorem tokenCall_sends (token target : EvmAddress) (amount : Nat) (tame : hook.Tame d)
    (entered : world.entered = true) :
    ∃ moved, Sends d ⟨token, target, amount⟩ world
      (world.tokenCall d hook token d.self target amount).2 moved := by
  unfold World.tokenCall
  split
  · have early := (tame world entered).1
    have held := early.entered.trans entered
    by_cases moves : hook.moves = true ∧ amount ≤ (hook.early world).balance token d.self
    · refine ⟨true, ?_⟩
      have sends := transfer_from_self target moves.2
      simp only [moves.1]
      exact (sends.then_outside (tame _ (sends.entered.trans held)).2).after_outside early
    · refine ⟨false, ?_⟩
      have stays : (if hook.moves then (hook.early world).transfer d token d.self target amount
          else hook.early world) = hook.early world := by
        split
        case isTrue willing => exact if_neg fun enough => moves ⟨willing, enough⟩
        case isFalse => rfl
      simp only [stays]
      exact (early.trans (tame _ held).2).unsent _
  · exact ⟨false, (Outside.refl d world).unsent _⟩

theorem send_sends (tame : hook.Tame d) (entered : world.entered = true)
    (sending : world.send d hook token target amount = .ok (next, sent)) :
    Sends d ⟨token, target, amount⟩ world next sent := by
  unfold World.send at sending
  split at sending
  case isTrue isCoin =>
    subst isCoin
    split at sending
    case isTrue accepted =>
      cases sending
      have sends := transfer_from_self target accepted.2.2
      exact sends.then_outside (tame _ (sends.entered.trans entered)).2
    case isFalse =>
      cases sending
      exact (Outside.refl d world).unsent _
  case isFalse isToken =>
    obtain ⟨-, sending⟩ := refuse_eq_ok_iff.mp sending
    obtain ⟨moved, sends⟩ := tokenCall_sends token target amount tame entered
    dsimp only at sending
    split at sending
    case isTrue unchanged =>
      -- The balance is what it was: nothing left, or it came back.
      cases sending
      refine { sends.toSameBooks with
        balance := fun other => ?_, transfers := fun other => ?_ }
      · by_cases same : other = token
        · simp [same, unchanged]
        · simpa [same] using sends.balance other
      · have recorded := sends.transfers other
        simp only [Bool.false_eq_true, false_and, if_false]
        omega
    case isFalse changed =>
      obtain ⟨checked, sending⟩ := refuse_eq_ok_iff.mp sending
      cases sending
      have fell := sends.balance token
      cases moved with
      | true => exact sends
      | false =>
        simp only [Bool.false_eq_true, false_and, if_false] at fell
        omega

end Payments

/-! ## Cover -/

namespace World

/-- What stands in funded escrows of a token. -/
def fundedTotal (world : World) (token : EvmAddress) : Nat :=
  world.escrows.total fun _ escrow =>
    if escrow.state = .funded ∧ escrow.token = token then escrow.total else 0

/-- What is owed in a token. -/
def owedTotal (world : World) (token : EvmAddress) : Nat :=
  world.owed.total fun holder amount => if holder.1 = token then amount else 0

/-- The balance covers the funded escrows, the debts and a reserve on top. -/
def Covered (d : Deployment) (world : World) (reserve : EvmAddress → Nat) : Prop :=
  ∀ token, world.fundedTotal token + world.owedTotal token + reserve token ≤ world.balance token d.self

end World

/-- A reserve in one token. -/
def only (token : EvmAddress) (amount : Nat) : EvmAddress → Nat := fun other =>
  if other = token then amount else 0

section Cover

variable {reserve : EvmAddress → Nat}

theorem SameBooks.fundedTotal (same : SameBooks world next) (token : EvmAddress) :
    next.fundedTotal token = world.fundedTotal token := by
  rw [World.fundedTotal, same.escrows, World.fundedTotal]

theorem SameBooks.owedTotal (same : SameBooks world next) (token : EvmAddress) :
    next.owedTotal token = world.owedTotal token := by
  rw [World.owedTotal, same.owed, World.owedTotal]

theorem SameBooks.owedTo (same : SameBooks world next) (token account : EvmAddress) :
    next.owedTo token account = world.owedTo token account := by
  rw [World.owedTo, same.owed, World.owedTo]

theorem World.Covered.outside (covered : world.Covered d reserve) (outside : Outside d world next) :
    next.Covered d reserve := by
  intro token
  rw [outside.fundedTotal, outside.owedTotal]
  exact (covered token).trans (outside.balance token)

theorem World.Covered.mono {less : EvmAddress → Nat} (covered : world.Covered d reserve)
    (smaller : ∀ token, less token ≤ reserve token) : world.Covered d less := fun token =>
  (Nat.add_le_add_left (smaller token) _).trans (covered token)

/-- Writing a debt moves the debts of its token by the difference. -/
theorem owedTotal_insert (world : World) (token account : EvmAddress) (amount : Nat)
    (other : EvmAddress) :
    ({ world with owed := world.owed.insert (token, account) amount } : World).owedTotal other +
        only token (world.owedTo token account) other =
      world.owedTotal other + only token amount other := by
  have written := total_insert world.owed
    (fun holder amount => if holder.1 = other then amount else 0) (token, account) amount
  have stood : world.owed.weightAt (fun holder amount => if holder.1 = other then amount else 0)
      (token, account) = only token (world.owedTo token account) other := by
    unfold KeyedMap.weightAt World.owedTo only
    cases world.owed.lookup (token, account) with
    | none => simp
    | some old => simp [eq_comm]
  rw [stood] at written
  have added : (if token = other then amount else 0) = only token amount other := by
    simp [only, eq_comm]
  rw [← added]
  exact written

/-- Writing an escrow moves what is funded in its token by the difference. -/
theorem fundedTotal_insert (world : World) (key : Bytes32) (escrow : Escrow) (token : EvmAddress) :
    ({ world with escrows := world.escrows.insert key escrow } : World).fundedTotal token +
        world.escrows.weightAt (fun _ escrow =>
          if escrow.state = .funded ∧ escrow.token = token then escrow.total else 0) key =
      world.fundedTotal token +
        if escrow.state = .funded ∧ escrow.token = token then escrow.total else 0 :=
  total_insert world.escrows _ key escrow

/-- Settling a funded escrow turns its total into a reserve. -/
theorem World.Covered.setState (covered : world.Covered d fun _ => 0)
    (found : world.escrows.lookup key = some escrow) (isFunded : escrow.state = .funded)
    (state : EscrowState) (settled : state ≠ .funded) :
    (world.setState key escrow state).Covered d (only escrow.token escrow.total) := by
  intro token
  have written := fundedTotal_insert world key { escrow with state := state } token
  rw [weightAt_of_lookup found] at written
  have before := covered token
  change (world.setState key escrow state).fundedTotal token + _ + _ ≤ world.balance token d.self
  change (world.setState key escrow state).fundedTotal token + _ = _ at written
  change _ + (world.setState key escrow state).owedTotal token + 0 ≤ _ at before
  by_cases same : token = escrow.token
  · simp [isFunded, settled, same, only] at *
    omega
  · simp [settled, only, same] at *
    omega

/-- A reserve of the total can be written down as a funded escrow. -/
theorem World.Covered.fund (covered : world.Covered d (only escrow.token escrow.total))
    (isFunded : escrow.state = .funded) :
    ({ world with escrows := world.escrows.insert key escrow } : World).Covered d fun _ => 0 := by
  intro token
  have written := fundedTotal_insert world key escrow token
  have held := covered token
  change _ + world.owedTotal token + 0 ≤ world.balance token d.self
  by_cases same : token = escrow.token
  · simp only [same, isFunded, only, and_self] at *
    omega
  · simp only [only, same, Ne.symm same, and_false] at *
    omega

end Cover

/-! ## Records -/

/-- The sum of the transfers to an account in a token. -/
def sumTo (token account : EvmAddress) : Nat :=
  ((transfers.filter fun transfer => transfer.token = token ∧ transfer.target = account).map
    Transfer.amount).sum

theorem sumTo_append (more : List Transfer) (token account : EvmAddress) :
    sumTo (transfers ++ more) token account =
      sumTo transfers token account + sumTo more token account := by
  simp [sumTo]

theorem sumTo_singleton (token account : EvmAddress) : sumTo [transfer] token account =
      if transfer.token = token ∧ transfer.target = account then transfer.amount else 0 := by
  by_cases here : transfer.token = token ∧ transfer.target = account <;> simp [sumTo, here]

namespace World

variable (world)

def unsent : List Transfer :=
  (world.parts.filter fun part => !part.sent).map Part.toTransfer

def sentParts : List Transfer :=
  (world.parts.filter fun part => part.sent).map Part.toTransfer

/-- The parts paid out for an escrow. -/
def partsOf (key : Bytes32) : List Part :=
  world.parts.filter fun part => part.key = key

/-- Debts are the parts that were not sent, less what was withdrawn; what counts as sent or
withdrawn was moved by the ledger. -/
structure Accounts (world : World) : Prop where
  owed : ∀ token account, world.owedTo token account + sumTo world.withdrawals token account =
    sumTo world.unsent token account
  sent : ∀ transfer, world.sentParts.count transfer + world.withdrawals.count transfer ≤
    world.transfers.count transfer

end World

theorem owedTo_insert (world : World) (token account : EvmAddress) (amount : Nat)
    (other holder : EvmAddress) :
    ({ world with owed := world.owed.insert (token, account) amount } : World).owedTo other holder =
      if other = token ∧ holder = account then amount else world.owedTo other holder := by
  unfold World.owedTo
  rw [lookup_insert_eq]
  by_cases here : other = token ∧ holder = account
  · simp [here]
  · rw [if_neg here, if_neg (by simpa using here)]

/-- One part was paid: sent, or written down as owed. -/
structure Paid (d : Deployment) (key : Bytes32) (transfer : Transfer) (world next : World)
    (sent : Bool) : Prop where
  escrows : next.escrows = world.escrows
  entered : next.entered = world.entered
  withdrawals : next.withdrawals = world.withdrawals
  parts : next.parts = world.parts ++ [⟨transfer, key, sent⟩]
  owed : ∀ token account, next.owedTo token account = world.owedTo token account +
    if sent = false ∧ transfer.token = token ∧ transfer.target = account then transfer.amount
    else 0
  owedTotal : ∀ token, next.owedTotal token = world.owedTotal token +
    if sent = false then only transfer.token transfer.amount token else 0
  balance : ∀ token, world.balance token d.self ≤ next.balance token d.self +
    if sent = true ∧ token = transfer.token then transfer.amount else 0
  transfers : ∀ other, world.transfers.count other +
    (if sent = true ∧ other = transfer then 1 else 0) ≤ next.transfers.count other

section Paying

variable {hook : Hook} {sent : Bool} {transfer : Transfer}

theorem pay_paid (tame : hook.Tame d) (entered : world.entered = true)
    (paying : world.pay d hook key token target amount = .ok next) :
    ∃ sent, Paid d key ⟨token, target, amount⟩ world next sent := by
  unfold World.pay at paying
  split at paying
  case h_1 => cases paying
  case h_2 result sending =>
    cases paying
    have sends := send_sends tame entered sending
    exact ⟨true, { sends with
      parts := congrArg (· ++ _) sends.parts
      owed := fun token account => (sends.owedTo token account).trans (by simp)
      owedTotal := fun token => (sends.owedTotal token).trans (by simp) }⟩
  case h_3 result sending =>
    have sends := send_sends tame entered sending
    obtain ⟨-, paying⟩ := refuse_eq_ok_iff.mp paying
    cases paying
    refine ⟨false, { sends with
      parts := congrArg (· ++ _) sends.parts
      owed := fun other account => ?_
      owedTotal := fun other => ?_ }⟩
    · have written := owedTo_insert result token target
        (result.owedTo token target + amount) other account
      refine (Eq.trans ?_ written).trans ?_
      · rfl
      · by_cases here : other = token ∧ account = target
        · obtain ⟨rfl, rfl⟩ := here
          simp [sends.owedTo]
        · have there : ¬ (token = other ∧ target = account) := fun same =>
            here ⟨same.1.symm, same.2.symm⟩
          simp [here, there, sends.owedTo]
    · have written := owedTotal_insert result token target (result.owedTo token target + amount) other
      have before := sends.owedTotal other
      have split : only token (result.owedTo token target + amount) other =
          only token (result.owedTo token target) other + only token amount other := by
        unfold only
        split <;> rfl
      simp only [if_true]
      exact add_right_cancel (written.trans (by omega))

variable (paid : Paid d key transfer world next sent)

include paid

/-- Paying a part uses up the reserve that was set aside for it. -/
theorem Paid.covered {reserve : EvmAddress → Nat} (covered : world.Covered d fun other =>
      reserve other + only transfer.token transfer.amount other) : next.Covered d reserve := by
  intro other
  have before := covered other
  have left := paid.balance other
  rw [World.fundedTotal, paid.escrows, paid.owedTotal]
  change world.fundedTotal other + _ + _ ≤ _
  cases sent with
  | true =>
    simp only [Bool.true_eq_false, if_false, true_and] at *
    unfold only at before
    omega
  | false =>
    simp only [Bool.false_eq_true, false_and, if_false, if_true] at *
    omega

theorem Paid.accounts (accounts : world.Accounts) : next.Accounts where
  owed := fun token account => by
    have before := accounts.owed token account
    have now : sumTo next.unsent token account = sumTo world.unsent token account +
        if sent = false ∧ transfer.token = token ∧ transfer.target = account then transfer.amount
        else 0 := by
      cases sent <;> simp [World.unsent, paid.parts, sumTo_append, sumTo_singleton]
    rw [paid.owed, paid.withdrawals]
    omega
  sent := fun other => by
    have before := accounts.sent other
    have recorded := paid.transfers other
    have now : next.sentParts.count other = world.sentParts.count other +
        if sent = true ∧ other = transfer then 1 else 0 := by
      cases sent with
      | false => simp [World.sentParts, paid.parts]
      | true =>
        by_cases same : other = transfer
        · simp [World.sentParts, paid.parts, same]
        · simp [World.sentParts, paid.parts, same, Ne.symm same]
    rw [paid.withdrawals]
    omega

theorem Paid.partsOf (other : Bytes32) : (next.partsOf other).map Part.toTransfer =
      (world.partsOf other).map Part.toTransfer ++ if key = other then [transfer] else [] := by
  by_cases same : key = other <;> simp [World.partsOf, paid.parts, same]

end Paying

/-! ## The entry points -/

/-- What an escrow has paid out, as its state says. -/
def payout (d : Deployment) : Option Escrow → List Transfer
  | none => []
  | some escrow =>
    match escrow.state with
    | .funded => []
    | .released =>
      ⟨escrow.token, escrow.buyer, escrow.total - escrow.fee⟩ ::
        if 0 < escrow.fee then [⟨escrow.token, d.feeReceiver, escrow.fee⟩] else []
    | .refunded => [⟨escrow.token, escrow.seller, escrow.total⟩]

theorem sum_payout (d : Deployment) (escrow : Escrow) (settled : escrow.state ≠ .funded) :
    ((payout d (some escrow)).map Transfer.amount).sum = escrow.total := by
  have small := escrow.fee_lt
  cases state : escrow.state with
  | funded => exact absurd state settled
  | released =>
    simp only [payout, state]
    split <;> simp only [List.map_cons, List.map_nil, List.sum_cons, List.sum_nil]
    · omega
    · omega
  | refunded => simp [payout, state]

/-- The books of the contract between and during calls. -/
structure World.Ok (d : Deployment) (world : World) : Prop where
  covered : world.Covered d fun _ => 0
  parts : ∀ key, (world.partsOf key).map Part.toTransfer = payout d (world.escrows.lookup key)
  accounts : world.Accounts

section EntryPoints

theorem World.Ok.outside (ok : world.Ok d) (outside : Outside d world next) : next.Ok d where
  covered := ok.covered.outside outside
  parts := fun key => by
    rw [World.partsOf, outside.parts, outside.escrows]
    exact ok.parts key
  accounts :=
    { owed := fun token account => by
        rw [outside.owedTo, outside.withdrawals, World.unsent, outside.parts]
        exact ok.accounts.owed token account
      sent := fun transfer => by
        rw [World.sentParts, outside.parts, outside.withdrawals, outside.transfers]
        exact ok.accounts.sent transfer }

variable {first second hook : Hook} {msg : Msg}

section

variable (ok : world.Ok d) (entered : world.entered = true)
  (found : world.escrows.lookup key = some escrow) (isFunded : escrow.state = .funded)

include ok entered found isFunded

omit entered in
/-- A settled escrow has paid what its state calls for, and the others what they had. -/
theorem World.Ok.settledParts {state : EscrowState} {paid : List Transfer}
    (escrows : next.escrows = (world.setState key escrow state).escrows)
    (parts : ∀ other, (next.partsOf other).map Part.toTransfer =
      (world.partsOf other).map Part.toTransfer ++ if key = other then paid else [])
    (due : payout d (some { escrow with state := state }) = paid) (other : Bytes32) :
    (next.partsOf other).map Part.toTransfer = payout d (next.escrows.lookup other) := by
  rw [parts, escrows, World.setState, lookup_insert_eq, ok.parts]
  by_cases same : other = key
  · subst same
    simp [found, payout, isFunded, ← due]
  · simp [same, Ne.symm same]

theorem World.Ok.release (tame : first.Tame d) (tameToo : second.Tame d)
    (released : world.release d key escrow first second = .ok next) :
    next.Ok d ∧ next.entered = true := by
  have small := escrow.fee_lt
  have covered := ok.covered.setState found isFunded .released (by decide)
  have held : (world.setState key escrow .released).entered = true := entered
  unfold World.release at released
  split at released
  case h_1 => cases released
  case h_2 middle paying =>
  obtain ⟨sent, paid⟩ := pay_paid tame held paying
  -- The reserve is split into the two parts.
  have restCovered : middle.Covered d (only escrow.token escrow.fee) := by
    refine paid.covered (covered.mono fun token => ?_)
    dsimp [only]
    split <;> omega
  have accounts := paid.accounts ⟨ok.accounts.owed, ok.accounts.sent⟩
  split at released
  case isTrue hasFee =>
    obtain ⟨sentFee, paidFee⟩ := pay_paid tameToo (paid.entered.trans held) released
    refine ⟨⟨paidFee.covered (restCovered.mono fun _ => by simp), ?_, paidFee.accounts accounts⟩,
      paidFee.entered.trans (paid.entered.trans held)⟩
    refine ok.settledParts found isFunded (paidFee.escrows.trans paid.escrows) (fun other => ?_)
      (congrArg (List.cons _) (if_pos hasFee))
    rw [paidFee.partsOf, paid.partsOf]
    by_cases same : key = other <;> simp [same, World.partsOf, World.setState]
  case isFalse noFee =>
    cases released
    exact ⟨⟨restCovered.mono fun _ => zero_le _,
      ok.settledParts found isFunded paid.escrows paid.partsOf
        (congrArg (List.cons _) (if_neg noFee)), accounts⟩, paid.entered.trans held⟩

theorem World.Ok.refund (tame : hook.Tame d)
    (refunded : world.refund d key escrow hook = .ok next) : next.Ok d ∧ next.entered = true := by
  have covered := ok.covered.setState found isFunded .refunded (by decide)
  have held : (world.setState key escrow .refunded).entered = true := entered
  obtain ⟨sent, paid⟩ := pay_paid tame held refunded
  exact ⟨⟨paid.covered (covered.mono fun _ => by simp),
    ok.settledParts found isFunded paid.escrows paid.partsOf rfl,
    paid.accounts ⟨ok.accounts.owed, ok.accounts.sent⟩⟩, paid.entered.trans held⟩

theorem World.Ok.settle (tame : first.Tame d) (tameToo : second.Tame d) {toBuyer : Bool}
    (settled : (if toBuyer then world.release d key escrow first second
      else world.refund d key escrow first) = .ok next) : next.Ok d ∧ next.entered = true := by
  cases toBuyer with
  | true => exact ok.release entered found isFunded tame tameToo settled
  | false => exact ok.refund entered found isFunded tame settled

end

/-- Writing an escrow that has paid nothing out, for one that has not either. -/
theorem World.Ok.write (ok : world.Ok d) (isFunded : escrow.state = .funded)
    (before : payout d (world.escrows.lookup key) = [])
    (covered : ({ world with escrows := world.escrows.insert key escrow } : World).Covered d
      fun _ => 0) :
    ({ world with escrows := world.escrows.insert key escrow } : World).Ok d where
  covered := covered
  parts := fun other => by
    change (world.partsOf other).map _ = payout d ((world.escrows.insert key escrow).lookup other)
    rw [lookup_insert_eq, ok.parts]
    by_cases same : other = key
    · subst same
      rw [before, if_pos rfl, payout, isFunded]
    · rw [if_neg same]
  accounts := ⟨ok.accounts.owed, ok.accounts.sent⟩

theorem World.Ok.freeze (ok : world.Ok d) (found : world.escrows.lookup key = some escrow)
    (isFunded : escrow.state = .funded) (frozen : world.freeze key escrow = .ok next) :
    next.Ok d ∧ next.entered = world.entered := by
  obtain ⟨-, frozen⟩ := refuse_eq_ok_iff.mp frozen
  cases frozen
  refine ⟨ok.write isFunded ?_ fun token => ?_, rfl⟩
  · rw [found, payout, isFunded]
  · have written := fundedTotal_insert world key { escrow with frozen := true } token
    rw [weightAt_of_lookup found] at written
    exact (add_right_cancel written) ▸ ok.covered token

variable {total : Nat}

/-- The deposit of a new escrow is there when it is written. -/
theorem deposit_covered (foreign : msg.sender ≠ d.self) (tame : hook.Tame d)
    (entered : world.entered = true) (covered : world.Covered d (only 0 msg.value))
    (deposited : world.deposit d msg token total hook = .ok next) :
    Outside d world next ∧ next.Covered d (only token total) := by
  unfold World.deposit at deposited
  split at deposited
  case isTrue isCoin =>
    obtain ⟨exact', rfl⟩ := (refuse_eq_ok_iff.mp deposited).imp not_not.mp Except.ok.inj
    exact ⟨Outside.refl d world, by rwa [isCoin, ← exact']⟩
  case isFalse =>
  simp only [refuse_eq_ok_iff] at deposited
  obtain ⟨-, -, -, arrived, done⟩ := deposited
  cases done
  have outside : Outside d world (world.tokenCall d hook token msg.sender d.self total).2 := by
    unfold World.tokenCall
    split
    · have early := (tame world entered).1
      have held := early.entered.trans entered
      have between : Outside d (hook.early world)
          (if hook.moves then (hook.early world).transfer d token msg.sender d.self total
          else hook.early world) := by
        split
        · exact outside_transfer foreign
        · exact Outside.refl d _
      exact (early.trans between).trans (tame _ (between.entered.trans held)).2
    · exact Outside.refl d world
  refine ⟨outside, fun other => ?_⟩
  rw [outside.fundedTotal, outside.owedTotal]
  have before := covered other
  have grown := outside.balance other
  unfold World.received at arrived
  unfold only
  split
  case isTrue same =>
    subst same
    dsimp only at arrived
    split at arrived <;> omega
  case isFalse => omega

theorem World.Ok.openEscrow (ok : world.Ok d) (foreign : msg.sender ≠ d.self)
    (entered : world.entered = true) (covered : world.Covered d (only 0 msg.value))
    {tradeId : Bytes32} {buyer arbiter : EvmAddress} {fee fallbackDelay : Nat} (tame : hook.Tame d)
    (opened : world.openEscrow d msg tradeId buyer arbiter token total fee fallbackDelay hook =
      .ok next) : next.Ok d ∧ next.entered = true := by
  unfold World.openEscrow at opened
  rw [refuse_eq_ok_iff, refuse_eq_ok_iff] at opened
  obtain ⟨-, -, opened⟩ := opened
  split at opened
  · cases opened
  rw [refuse_eq_ok_iff, refuse_eq_ok_iff] at opened
  obtain ⟨-, unused, opened⟩ := opened
  split at opened
  case h_1 => cases opened
  case h_2 middle deposited =>
  obtain ⟨outside, depositCovered⟩ := deposit_covered foreign tame entered covered deposited
  have absent : middle.escrows.lookup (d.keyOf tradeId msg.sender) = none := by
    rw [outside.escrows]
    simpa using unused
  obtain ⟨-, rfl⟩ := (refuse_eq_ok_iff.mp opened).imp_right Except.ok.inj
  exact ⟨(ok.outside outside).write rfl (by rw [absent, payout])
    (World.Covered.fund (by exact depositCovered) rfl), outside.entered.trans entered⟩

theorem World.Ok.withdraw (ok : world.Ok d) (entered : world.entered = true) {sender : EvmAddress}
    (tame : hook.Tame d) (withdrew : world.withdraw d sender token hook = .ok next) :
    next.Ok d ∧ next.entered = true := by
  unfold World.withdraw at withdrew
  dsimp only at withdrew
  split at withdrew
  · cases withdrew
  split at withdrew
  · cases withdrew
  · cases withdrew
  case h_3 middle sending =>
  cases withdrew
  have sends := send_sends tame (by exact entered) sending
  have debt (other holder : EvmAddress) := owedTo_insert world token sender 0 other holder
  refine ⟨⟨fun other => ?_, fun key => ?_, ⟨fun other account => ?_, fun transfer => ?_⟩⟩,
    sends.entered.trans entered⟩
  · have debts := owedTotal_insert world token sender 0 other
    have before := ok.covered other
    have left := sends.balance other
    have funded := sends.fundedTotal other
    have owed := sends.owedTotal other
    change middle.fundedTotal other + middle.owedTotal other + 0 ≤ middle.balance other d.self
    change middle.fundedTotal other = world.fundedTotal other at funded
    unfold only at debts
    split at debts <;> simp_all <;> omega
  · rw [sends.parts, sends.escrows]
    exact ok.parts key
  · have before := ok.accounts.owed other account
    have now := (sends.owedTo other account).trans (debt other account)
    change middle.owedTo other account + sumTo (middle.withdrawals ++ _) other account =
      sumTo middle.unsent other account
    rw [World.unsent, sends.parts, sends.withdrawals, now, sumTo_append, sumTo_singleton]
    change _ = sumTo world.unsent other account
    by_cases here : other = token ∧ account = sender
    · obtain ⟨rfl, rfl⟩ := here
      simp
      omega
    · have there : ¬ (token = other ∧ sender = account) := fun same =>
        here ⟨same.1.symm, same.2.symm⟩
      simpa [here, there] using before
  · have before := ok.accounts.sent transfer
    have recorded := sends.transfers transfer
    rw [sends.parts, sends.withdrawals]
    change world.sentParts.count transfer + _ ≤ _
    by_cases same : transfer = ⟨token, sender, world.owedTo token sender⟩
    · simp [same] at *
      omega
    · simp [Ne.symm same] at *
      omega

/-- What holds after every act on a funded escrow holds after a checked one. -/
theorem of_onFunded {allowed : Escrow → Except Revert Unit} {act : Escrow → Except Revert World}
    {goal : Prop} (done : world.onFunded key allowed act = .ok next)
    (acts : ∀ {escrow}, world.escrows.lookup key = some escrow → escrow.state = .funded →
      act escrow = .ok next → goal) : goal := by
  unfold World.onFunded World.funded at done
  cases found : world.escrows.lookup key with
  | none => simp [found] at done
  | some escrow =>
    by_cases isFunded : escrow.state = .funded
    · simp only [found, isFunded, if_true] at done
      split at done
      · cases done
      · exact acts found isFunded done
    · simp [found, isFunded] at done

theorem World.Ok.body (ok : world.Ok d) (entered : world.entered = true)
    (foreign : msg.sender ≠ d.self) (covered : world.Covered d (only 0 msg.value))
    (tame : first.Tame d) (tameToo : second.Tame d)
    (done : world.body d msg first second = .ok next) : next.Ok d ∧ next.entered = true := by
  unfold World.body at done
  split at done
  case h_1 => exact ok.openEscrow foreign entered covered tame done
  case h_2 | h_7 =>
    exact of_onFunded done fun found isFunded => ok.release entered found isFunded tame tameToo
  case h_3 | h_6 | h_8 =>
    exact of_onFunded done fun found isFunded => ok.refund entered found isFunded tame
  case h_4 | h_9 =>
    exact of_onFunded done fun found isFunded => ok.settle entered found isFunded tame tameToo
  case h_5 | h_10 =>
    exact of_onFunded done (entered ▸ ok.freeze)
  case h_11 => exact ok.withdraw entered tame done

/-- The value of a call arrives as a reserve. -/
theorem value_covered (covered : world.Covered d fun _ => 0) {value : Nat}
    (foreign : source ≠ d.self) (enough : value ≤ world.balance 0 source) :
    (world.transfer d 0 source d.self value).Covered d (only 0 value) := by
  intro token
  have outside : Outside d world (world.transfer d 0 source d.self value) :=
    outside_transfer foreign
  rw [outside.fundedTotal, outside.owedTotal, World.transfer, if_pos enough]
  have before := covered token
  dsimp only [only, moved]
  by_cases isCoin : token = 0
  · simp only [isCoin, ne_eq, not_true_eq_false, foreign, or_self, if_false, Ne.symm foreign,
      if_true] at *
    omega
  · rw [if_neg isCoin, if_pos (Or.inl isCoin)]
    exact before

theorem World.Ok.call (ok : world.Ok d) (foreign : msg.sender ≠ d.self) (tame : first.Tame d)
    (tameToo : second.Tame d) (done : world.call d msg first second = .ok next) : next.Ok d := by
  obtain ⟨enough, done⟩ := refuse_eq_ok_iff.mp done
  split at done
  · cases done
  dsimp only at done
  split at done
  · cases done
  split at done
  case h_1 => cases done
  case h_2 last ran =>
  cases done
  have arrived : (world.transfer d 0 msg.sender d.self msg.value).Ok d :=
    ok.outside (outside_transfer foreign)
  have covered := value_covered ok.covered foreign (not_lt.mp enough)
  have inside : World.Ok d { world.transfer d 0 msg.sender d.self msg.value with
      entered := true } := ⟨arrived.covered, arrived.parts,
    arrived.accounts.owed, arrived.accounts.sent⟩
  obtain ⟨done, -⟩ := inside.body rfl foreign covered tame tameToo ran
  exact ⟨done.covered, done.parts, done.accounts.owed, done.accounts.sent⟩

end EntryPoints

/-! ## Runs -/

theorem tame_reply (d : Deployment) (early late : List Act) (moves ok : Bool) :
    Hook.Tame d ⟨execAll d early, moves, execAll d late, ok⟩ := fun _ entered =>
  ⟨execAll_of_entered early entered, execAll_of_entered late entered⟩

theorem World.Ok.exec (ok : world.Ok d) (act : Act) : (act.exec d world).Ok d := by
  cases act with
  | move token source target amount =>
    rw [Act.exec]
    split
    case isTrue => exact ok
    case isFalse foreign => exact ok.outside (outside_transfer foreign)
  | call msg first second =>
    obtain ⟨early, moves, late, answers⟩ := first
    obtain ⟨earlier, moves', later, answers'⟩ := second
    rw [Act.exec]
    split
    case isTrue => exact ok
    case isFalse foreign =>
    split
    case h_1 next done =>
      exact ok.call foreign (tame_reply d early late moves answers)
        (tame_reply d earlier later moves' answers') done
    case h_2 => exact ok

theorem World.Ok.execAll (ok : world.Ok d) : (execAll d acts world).Ok d := by
  induction acts generalizing world with
  | nil =>
    exact ok
  | cons act rest ih =>
    exact ih (ok.exec act)

theorem World.initial_ok (d : Deployment) (balance : EvmAddress → EvmAddress → Nat) :
    (World.initial balance).Ok d where
  covered := fun _ => zero_le _
  parts := fun _ => rfl
  accounts := ⟨fun _ _ => rfl, fun _ => le_refl _⟩

/-- After every run the contract's balance of each token covers its funded escrows and its
debts.  An escrow has paid nothing while it is funded; after that the parts paid for it are
those of one release or one refund and add up to its total.  Each part was moved by the
ledger or was added to what is owed. -/
theorem escrow_solvent_and_pays_once (d : Deployment) (balance : EvmAddress → EvmAddress → Nat)
    (acts : List Act) :
    let world := execAll d acts (World.initial balance)
    (∀ token, world.fundedTotal token + world.owedTotal token ≤ world.balance token d.self) ∧
      (∀ key, (world.partsOf key).map Part.toTransfer = payout d (world.escrows.lookup key)) ∧
      (∀ escrow : Escrow, escrow.state ≠ .funded →
        ((payout d (some escrow)).map Transfer.amount).sum = escrow.total) ∧
      (∀ token account, world.owedTo token account + sumTo world.withdrawals token account =
        sumTo world.unsent token account) ∧
      ∀ transfer, world.sentParts.count transfer + world.withdrawals.count transfer ≤
        world.transfers.count transfer := by
  intro world
  have ok : world.Ok d := (World.initial_ok d balance).execAll acts
  exact ⟨ok.covered, ok.parts, sum_payout d, ok.accounts.owed, ok.accounts.sent⟩

end EgoChain.Evm
