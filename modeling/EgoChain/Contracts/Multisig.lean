import EgoChain.Foundations.Texts

/-!
# A wallet of several owners

`multisig.urego` keeps its owners in a numbered list and a flag for each of them.  Its `init` does
not ask whether the wallet is there already: a second call starts a new list and leaves the flags
of the old owners.  List and flags agree as long as nobody makes such a call.

A call that fails, or whose numbers overflow, changes nothing, as if it had not been made.
-/

namespace EgoChain.Contracts

open EgoChain.Foundations Function

structure Signing where
  blake2 : Text → Text
  ecrecover : Text → Text → Option Text
  zeroAddr : Text

structure Wallet where
  /-- The addresses under the numbers. -/
  owner : Nat → Option Text := fun _ => none
  count : Nat := 0
  threshold : Nat := 0
  nonce : Nat := 0
  isOwner : Text → Bool := fun _ => false

structure Transfer where
  target : Text
  value : Nat
  data : Text

def Transfer.bytes (op : Transfer) : Text := op.target ++ leBytes 16 op.value ++ op.data

inductive Operation where
  | execute (op : Transfer)
  | executeBatch (ops : List Transfer)
  | addOwner (newOwner : Text)
  | removeOwner (owner : Text)
  | changeThreshold (newThreshold : Nat)

/-- What the owners sign, behind the nonce. -/
def Operation.bytes : Operation → Text
  | .execute op => op.bytes
  | .executeBatch ops => ops.flatMap Transfer.bytes
  | .addOwner newOwner => utf8 "add_owner" ++ newOwner
  | .removeOwner owner => utf8 "remove_owner" ++ owner
  | .changeThreshold newThreshold => utf8 "change_threshold" ++ leBytes 4 newThreshold

inductive WalletCall where
  | init (owners : List Text) (threshold : Nat)
  | operate (operation : Operation) (signatures : List Text)

namespace Wallet

variable (signing : Signing) (wallet : Wallet)

/-- The loop over the signatures, with the signers that were counted. -/
def validateTx (txHash : Text) : List Text → List Text → Bool
  | [], _ => false
  | sig :: rest, seen =>
    match signing.ecrecover txHash sig with
    | none => validateTx txHash rest seen
    | some signer =>
      if signer ∈ seen ∨ wallet.isOwner signer = false then validateTx txHash rest seen
      else if wallet.threshold ≤ seen.length + 1 then true
      else validateTx txHash rest (signer :: seen)

def list (index : Nat) (addr : Text) : Wallet :=
  { wallet with
    owner := update wallet.owner index (some addr)
    isOwner := update wallet.isOwner addr true }

/-- The loop of `init`. -/
def register : Wallet → Nat → List Text → Option Wallet
  | wallet, _, [] => some wallet
  | wallet, index, addr :: rest =>
    if addr ≠ signing.zeroAddr ∧ wallet.isOwner addr = false then
      register (wallet.list index addr) (index + 1) rest
    else none

def init (owners : List Text) (threshold : Nat) : Option Wallet :=
  if 0 < owners.length ∧ 1 ≤ threshold ∧ threshold ≤ owners.length then
    (register signing { wallet with threshold := threshold, nonce := 0 } 0 owners).map
      fun last => { last with count := owners.length }
  else none

/-- The loop of `remove_owner`. -/
def foundIdx (addr : Text) : Nat → Nat
  | 0 => 0
  | i + 1 => if wallet.owner i = some addr then i else foundIdx addr i

def withoutOwner (addr : Text) : Wallet :=
  { wallet with
    isOwner := update wallet.isOwner addr false
    owner := update (update wallet.owner (wallet.foundIdx addr wallet.count)
      (wallet.owner (wallet.count - 1))) (wallet.count - 1) none
    count := wallet.count - 1 }

/-- The checks and the writes of an operation besides its signatures.  In `remove_owner` the
comparison is with `count - 1`, which fails at 0. -/
def carryOut : Operation → Option Wallet
  | .execute _ | .executeBatch _ => some wallet
  | .addOwner addr =>
    if addr ≠ signing.zeroAddr ∧ wallet.isOwner addr = false then
      some { wallet.list wallet.count addr with count := wallet.count + 1 }
    else none
  | .removeOwner addr =>
    if wallet.isOwner addr = true ∧ wallet.threshold < wallet.count then some (wallet.withoutOwner addr)
    else none
  | .changeThreshold threshold =>
    if 1 ≤ threshold ∧ threshold ≤ wallet.count then some { wallet with threshold := threshold }
    else none

def operate (operation : Operation) (signatures : List Text) : Option Wallet :=
  if wallet.validateTx signing (signing.blake2 (leBytes 8 wallet.nonce ++ operation.bytes)) signatures []
  then { wallet with nonce := wallet.nonce + 1 }.carryOut signing operation
  else none

def call : WalletCall → Option Wallet
  | .init owners threshold => wallet.init signing owners threshold
  | .operate operation signatures => wallet.operate signing operation signatures

def run (calls : List WalletCall) : Wallet :=
  calls.foldl (fun wallet call => (wallet.call signing call).getD wallet) wallet

/-- The list has this many entries, all different, and they are the owners with a flag. -/
structure Table (size : Nat) (wallet : Wallet) : Prop where
  ends : ∀ i, wallet.owner i = none ↔ size ≤ i
  distinct : ∀ {i j addr}, wallet.owner i = some addr → wallet.owner j = some addr → i = j
  flagged : ∀ addr, wallet.isOwner addr = true ↔ ∃ i, wallet.owner i = some addr

structure Consistent (wallet : Wallet) : Prop where
  table : wallet.Table wallet.count
  least : 1 ≤ wallet.threshold
  most : wallet.threshold ≤ wallet.count

variable {signing} {wallet} {size threshold : Nat} {addr : Text} {next : Wallet} {owners : List Text}

theorem Table.list (table : wallet.Table size) (new : wallet.isOwner addr = false) :
    (wallet.list size addr).Table (size + 1) := by
  obtain ⟨ends, distinct, flagged⟩ := table
  have absent : ∀ i, wallet.owner i ≠ some addr := by grind
  unfold Wallet.list
  constructor
  case ends | distinct => grind [update_apply]
  case flagged =>
    intro other
    by_cases same : other = addr
    · simp only [same, update_self, true_iff]
      exact ⟨size, update_self ..⟩
    · simp only [update_of_ne same, flagged]
      exact exists_congr fun i => by grind [update_apply]

theorem Table.register (table : wallet.Table size)
    (done : wallet.register signing size owners = some next) :
    next.Table (size + owners.length) ∧ next.threshold = wallet.threshold := by
  induction owners generalizing wallet size with
  | nil =>
    cases done
    exact ⟨table, rfl⟩
  | cons addr rest ih =>
    obtain ⟨new, done⟩ := Option.ite_none_right_eq_some.mp done
    have last := ih (table.list new.2) done
    rwa [Nat.add_assoc, Nat.add_comm 1] at last

theorem foundIdx_spec {i : Nat} (there : wallet.owner i = some addr) (bound : Nat) (inside : i < bound) :
    wallet.owner (wallet.foundIdx addr bound) = some addr := by
  induction bound with
  | zero => omega
  | succ bound ih =>
    unfold foundIdx
    split
    case isTrue here => exact here
    case isFalse apart =>
      refine ih (Nat.lt_of_le_of_ne (Nat.le_of_lt_succ inside) ?_)
      rintro rfl
      exact apart there

/-- The last entry takes the place of the one that is removed. -/
theorem Table.withoutOwner (table : wallet.Table wallet.count) (listed : wallet.isOwner addr = true) :
    (wallet.withoutOwner addr).Table (wallet.count - 1) := by
  obtain ⟨ends, distinct, flagged⟩ := table
  obtain ⟨i, there⟩ := (flagged addr).mp listed
  have found := foundIdx_spec there wallet.count (by grind)
  unfold Wallet.withoutOwner
  generalize wallet.foundIdx addr wallet.count = place at found
  have inside : place < wallet.count := by grind
  constructor
  case ends | distinct => grind [update_apply]
  case flagged =>
    intro other
    constructor
    · intro stays
      have apart : other ≠ addr := by grind [update_apply]
      obtain ⟨j, at'⟩ := (flagged other).mp (by simpa [apart] using stays)
      by_cases isLast : j = wallet.count - 1
      · exact ⟨place, by grind [update_apply]⟩
      · exact ⟨j, by grind [update_apply]⟩
    · grind [update_apply]

theorem init_consistent (done : ({} : Wallet).init signing owners threshold = some next) :
    next.Consistent := by
  obtain ⟨⟨-, least, most⟩, done⟩ := Option.ite_none_right_eq_some.mp done
  obtain ⟨last, registered, rfl⟩ := Option.map_eq_some_iff.mp done
  have empty : Wallet.Table 0 { threshold := threshold } := ⟨by simp, nofun, by simp⟩
  obtain ⟨⟨ends, distinct, flagged⟩, same⟩ := empty.register registered
  rw [Nat.zero_add] at ends
  exact ⟨⟨ends, distinct, flagged⟩, same ▸ least, same ▸ most⟩

theorem Consistent.operate {operation : Operation} {signatures : List Text}
    (consistent : wallet.Consistent)
    (done : wallet.operate signing operation signatures = some next) :
    next.Consistent ∧ wallet.nonce < next.nonce := by
  obtain ⟨table, least, most⟩ := consistent
  have same : Table wallet.count { wallet with nonce := wallet.nonce + 1 } := { table with }
  obtain ⟨-, done⟩ := Option.ite_none_right_eq_some.mp done
  cases operation with
  | execute | executeBatch =>
    cases done
    exact ⟨⟨same, least, most⟩, Nat.lt_succ_self _⟩
  | addOwner addr =>
    obtain ⟨new, done⟩ := Option.ite_none_right_eq_some.mp done
    cases done
    exact ⟨⟨{ same.list new.2 with }, least, Nat.le_succ_of_le most⟩, Nat.lt_succ_self _⟩
  | removeOwner addr =>
    obtain ⟨⟨listed, enough⟩, done⟩ := Option.ite_none_right_eq_some.mp done
    cases done
    exact ⟨⟨same.withoutOwner listed, least, Nat.le_sub_one_of_lt enough⟩, Nat.lt_succ_self _⟩
  | changeThreshold threshold =>
    obtain ⟨⟨least, most⟩, done⟩ := Option.ite_none_right_eq_some.mp done
    cases done
    exact ⟨⟨{ same with }, least, most⟩, Nat.lt_succ_self _⟩

theorem Consistent.run {calls : List WalletCall} (consistent : wallet.Consistent)
    (once : ∀ call ∈ calls, ∃ operation signatures, call = .operate operation signatures) :
    (wallet.run signing calls).Consistent := by
  induction calls generalizing wallet with
  | nil => exact consistent
  | cons call rest ih =>
    obtain ⟨⟨operation, signatures, rfl⟩, later⟩ := List.forall_mem_cons.mp once
    refine ih ?_ later
    dsimp only
    cases done : wallet.call signing (.operate operation signatures) with
    | none => exact consistent
    | some next => exact (consistent.operate done).1

/-- After every list of calls without a second `init`, the list and the flags name the same owners,
the threshold is one that they can reach, and an operation that succeeds raises the nonce. -/
theorem owner_table_stays_consistent (signing : Signing) {deployed : Wallet}
    (isDeployed : ({} : Wallet).init signing owners threshold = some deployed)
    (calls : List WalletCall)
    (once : ∀ call ∈ calls, ∃ operation signatures, call = .operate operation signatures) :
    (deployed.run signing calls).Consistent ∧ ∀ operation signatures next,
        (deployed.run signing calls).operate signing operation signatures = some next →
        (deployed.run signing calls).nonce < next.nonce := by
  have consistent := @Consistent.run signing _ _ (init_consistent isDeployed) once
  exact ⟨consistent, fun _ _ _ done => (consistent.operate done).2⟩

/-- A signature is the name of its signer. -/
def plainSigning : Signing := ⟨id, fun _ => some, []⟩

/-- The first of two owners takes in a third one and leaves. -/
theorem owners_after_removal : ∃ deployed last : Wallet,
    ({} : Wallet).init plainSigning [[1], [2]] 1 = some deployed ∧
    deployed.run plainSigning [.operate (.addOwner [3]) [[1]], .operate (.removeOwner [1]) [[1]]] = last ∧
    last.owner 0 = some [3] ∧ last.Consistent := by
  refine ⟨_, _, rfl, rfl, rfl, ?_⟩
  exact (@owner_table_stays_consistent 1 [[1], [2]] plainSigning _ rfl _ (by simp)).1

/-- Anybody can call `init` again: the old owner keeps the flag, and is not in the list. -/
theorem second_init_keeps_old_flags :
    ∃ deployed last : Wallet, ({} : Wallet).init plainSigning [[1]] 1 = some deployed ∧
      deployed.run plainSigning [.init [[2]] 1] = last ∧
      last.isOwner [1] = true ∧ ∀ i, last.owner i ≠ some [1] := by
  refine ⟨_, _, rfl, rfl, rfl, fun i => ?_⟩
  cases i with
  | zero => decide
  | succ i => exact nofun

end Wallet

/-! ## What a signature stands for

With addresses of one length, a payload can be read in two ways exactly if it holds a second entry of a
batch, or a change of the threshold that is as long as an entry.
-/

/-- An address of the given length, and a number that fits its type. -/
def Transfer.Fits (size : Nat) (op : Transfer) : Prop := op.target.length = size ∧ op.value < 256 ^ 16

namespace Operation

def Fits (size : Nat) : Operation → Prop
  | .execute op => op.Fits size
  | .executeBatch ops => ∀ op ∈ ops, op.Fits size
  | .addOwner addr | .removeOwner addr => addr.length = size
  | .changeThreshold threshold => threshold < 256 ^ 4

/-- A batch of one entry does what the entry does. -/
def effect : Operation → Operation
  | .executeBatch [op] => .execute op
  | operation => operation

/-- The payload has no room for a second entry, and is none of a change of the threshold. -/
def ReadOneWay (size : Nat) : Operation → Prop
  | .execute op | .executeBatch [op] => op.data.length < size + 16 ∧
      ∀ threshold < 256 ^ 4, op.bytes ≠ (changeThreshold threshold).bytes
  | .executeBatch (_ :: _ :: _) => False
  | .changeThreshold _ => 5 ≤ size
  | .executeBatch [] | .addOwner _ | .removeOwner _ => True

def isTagged : Operation → Bool
  | .execute _ | .executeBatch _ => false
  | .addOwner _ | .removeOwner _ | .changeThreshold _ => true

end Operation

section Payloads

variable {size : Nat} {op other : Transfer} {ops : List Transfer} {bytes rest tail : Text}
  {operation second : Operation}

theorem Transfer.Fits.length (fits : op.Fits size) :
    op.bytes.length = size + 16 + op.data.length := by
  simp [Transfer.bytes, fits.1, Nat.add_assoc]

theorem Transfer.Fits.append_inj (fits : op.Fits size) (fitsToo : other.Fits size)
    (same : op.bytes ++ rest = other.bytes ++ tail) :
    op.target = other.target ∧ op.value = other.value ∧ op.data ++ rest = other.data ++ tail := by
  simp only [Transfer.bytes, List.append_assoc] at same
  obtain ⟨targets, same⟩ := List.append_inj same (fits.1.trans fitsToo.1.symm)
  exact ⟨targets, leBytes_append_inj fits.2 fitsToo.2 same⟩

/-- Bytes enough for an address and a number are the payload of an entry. -/
theorem exists_transfer (long : size + 16 ≤ bytes.length) :
    ∃ op : Transfer, op.Fits size ∧ op.bytes = bytes := by
  have width : ((bytes.drop size).take 16).length = 16 := by
    rw [List.length_take, List.length_drop]
    omega
  have number := leBytes_leNat ((bytes.drop size).take 16)
  have small := leNat_lt ((bytes.drop size).take 16)
  rw [width] at number small
  refine ⟨⟨bytes.take size, leNat ((bytes.drop size).take 16), (bytes.drop size).drop 16⟩,
    ⟨List.length_take_of_le (by omega), small⟩, ?_⟩
  rw [Transfer.bytes, number, List.append_assoc, List.take_append_drop, List.take_append_drop]

theorem length_flatMap_bytes (fits : ∀ op ∈ ops, op.Fits size) (some' : ops ≠ []) :
    size + 16 ≤ (ops.flatMap Transfer.bytes).length := by
  obtain ⟨op, rest, rfl⟩ := List.exists_cons_of_ne_nil some'
  rw [List.flatMap_cons, List.length_append, (fits op List.mem_cons_self).length]
  omega

/-- An entry without room for a second one is read as itself only. -/
theorem Transfer.Fits.eq_singleton (fits : op.Fits size) (short : op.data.length < size + 16)
    (fitsToo : ∀ op ∈ ops, op.Fits size) (same : op.bytes = ops.flatMap Transfer.bytes) :
    ops = [op] := by
  cases ops with
  | nil =>
    have lengths := congrArg List.length same
    rw [fits.length, List.flatMap_nil, List.length_nil] at lengths
    omega
  | cons first rest =>
    obtain ⟨fitsFirst, fitsRest⟩ := List.forall_mem_cons.mp fitsToo
    rw [List.flatMap_cons, ← List.append_nil op.bytes] at same
    obtain ⟨targets, values, data⟩ := fits.append_inj fitsFirst same
    rw [List.append_nil] at data
    have none' : rest = [] := by
      by_contra some'
      have room := length_flatMap_bytes fitsRest some'
      have lengths := congrArg List.length data
      rw [List.length_append] at lengths
      omega
    subst none'
    cases op; cases first
    simp_all

theorem length_tags : (utf8 "add_owner").length = 9 ∧ (utf8 "remove_owner").length = 12 ∧
    (utf8 "change_threshold").length = 16 :=
  ⟨rfl, rfl, rfl⟩

theorem head_tags : (utf8 "add_owner").head? = some 97 ∧ (utf8 "remove_owner").head? = some 114 ∧
    (utf8 "change_threshold").head? = some 99 :=
  ⟨rfl, rfl, rfl⟩

namespace Operation.Fits

theorem length_entries (fits : operation.Fits size) (entries : operation.isTagged = false) :
    operation = .executeBatch [] ∨ size + 16 ≤ operation.bytes.length := by
  cases operation with
  | execute op =>
    right
    rw [Operation.bytes, Transfer.Fits.length fits]
    omega
  | executeBatch ops =>
    by_cases none' : ops = []
    · exact Or.inl (congrArg _ none')
    · exact Or.inr (length_flatMap_bytes fits none')
  | addOwner | removeOwner | changeThreshold => cases entries

theorem length_tagged (fits : operation.Fits size) (tagged : operation.isTagged = true) :
    0 < operation.bytes.length ∧
      (operation.ReadOneWay size → operation.bytes.length < size + 16) := by
  have tags := length_tags
  cases operation with
  | execute | executeBatch => cases tagged
  | addOwner | removeOwner | changeThreshold =>
    simp only [Operation.Fits, Operation.ReadOneWay, Operation.bytes, List.length_append,
      length_leBytes] at fits ⊢
    omega

/-- Owners and thresholds are told from one another by the first byte. -/
theorem tagged_inj (fits : operation.Fits size) (fitsToo : second.Fits size)
    (tagged : operation.isTagged = true) (taggedToo : second.isTagged = true)
    (same : second.bytes = operation.bytes) : second = operation := by
  have heads := congrArg List.head? same
  obtain ⟨add, remove, change⟩ := head_tags
  match operation, second with
  | .execute _, _ | .executeBatch _, _ => cases tagged
  | _, .execute _ | _, .executeBatch _ => cases taggedToo
  | .addOwner _, .addOwner _ | .removeOwner _, .removeOwner _ => rw [List.append_cancel_left same]
  | .changeThreshold _, .changeThreshold _ =>
    rw [leBytes_inj fitsToo fits (List.append_cancel_left same)]
  | .addOwner _, .removeOwner _ | .addOwner _, .changeThreshold _ | .removeOwner _, .addOwner _
  | .removeOwner _, .changeThreshold _ | .changeThreshold _, .addOwner _
  | .changeThreshold _, .removeOwner _ =>
    simp [Operation.bytes, add, remove, change] at heads

/-- An entry without room for a second one stands for itself only. -/
theorem effect_eq_entry (fits : op.Fits size) (one : (execute op).ReadOneWay size)
    (fitsToo : second.Fits size) (same : second.bytes = op.bytes) : second.effect = .execute op := by
  obtain ⟨short, apart⟩ := one
  cases second with
  | execute other =>
    have only := Transfer.Fits.eq_singleton fits short (List.forall_mem_singleton.mpr fitsToo)
      (same.symm.trans (List.flatMap_singleton ..).symm)
    rw [(List.cons.inj only).1]
    rfl
  | executeBatch ops =>
    rw [Transfer.Fits.eq_singleton fits short fitsToo same.symm]
    rfl
  | changeThreshold threshold => exact absurd same.symm (apart threshold fitsToo)
  | addOwner | removeOwner =>
    have small := (length_tagged fitsToo rfl).2 trivial
    rw [same, Transfer.Fits.length fits] at small
    omega

theorem effect_eq (fits : operation.Fits size) (one : operation.ReadOneWay size)
    (fitsToo : second.Fits size) (same : second.bytes = operation.bytes) :
    second.effect = operation.effect := by
  have lengths := congrArg List.length same
  cases kind : operation.isTagged with
  | true =>
    obtain ⟨positive, small⟩ := fits.length_tagged kind
    cases kindToo : second.isTagged with
    | true => rw [fits.tagged_inj fitsToo kind kindToo same]
    | false =>
      -- The payload is longer than nothing and shorter than an entry.
      rcases fitsToo.length_entries kindToo with rfl | long
      · exact absurd lengths.symm positive.ne'
      · have bound := small one
        omega
  | false =>
    match operation with
    | .execute op => exact effect_eq_entry fits one fitsToo same
    | .executeBatch [op] =>
      exact effect_eq_entry (List.forall_mem_singleton.mp fits) one fitsToo
        (same.trans (List.flatMap_singleton ..))
    | .executeBatch (_ :: _ :: _) => exact one.elim
    | .executeBatch [] =>
      have empty : second.bytes.length = 0 := lengths
      cases kindToo : second.isTagged with
      | true => exact absurd empty (fitsToo.length_tagged kindToo).1.ne'
      | false =>
        rcases fitsToo.length_entries kindToo with rfl | long
        · rfl
        · omega

/-- The call data of an entry holds a second one, or the entry is a change of the threshold. -/
theorem exists_other_entry (fits : op.Fits size) (several : ¬ (execute op).ReadOneWay size) :
    ∃ second : Operation, second.Fits size ∧ second.bytes = op.bytes ∧ second.effect ≠ .execute op := by
  by_cases short : op.data.length < size + 16
  · have clash := not_and.mp several short
    simp only [not_forall, not_not] at clash
    obtain ⟨threshold, small, same⟩ := clash
    exact ⟨.changeThreshold threshold, small, same.symm, nofun⟩
  · obtain ⟨next, fitsNext, bytes⟩ := exists_transfer (Nat.not_lt.mp short)
    refine ⟨.executeBatch [⟨op.target, op.value, []⟩, next], ?_, ?_, nofun⟩
    · exact List.forall_mem_cons.mpr ⟨fits, List.forall_mem_singleton.mpr fitsNext⟩
    · rw [Operation.bytes, List.flatMap_cons, List.flatMap_singleton, bytes]
      simp [Transfer.bytes]

theorem exists_other (fits : operation.Fits size) (several : ¬ operation.ReadOneWay size) :
    ∃ second : Operation, second.Fits size ∧ second.bytes = operation.bytes ∧
      second.effect ≠ operation.effect := by
  match operation with
  | .execute op => exact exists_other_entry fits several
  | .executeBatch [op] =>
    obtain ⟨second, fitsToo, same, other⟩ :=
      exists_other_entry (List.forall_mem_singleton.mp fits) several
    exact ⟨second, fitsToo, same.trans (List.flatMap_singleton ..).symm, other⟩
  | .executeBatch (first :: next :: rest) =>
    refine ⟨.execute ⟨first.target, first.value, first.data ++ (next :: rest).flatMap Transfer.bytes⟩,
      fits first List.mem_cons_self, ?_, nofun⟩
    simp [Operation.bytes, Transfer.bytes]
  | .changeThreshold threshold =>
    have tags := length_tags
    obtain ⟨op, fitsToo, same⟩ := @exists_transfer size (changeThreshold threshold).bytes (by
      simp only [Operation.ReadOneWay, Operation.bytes, List.length_append, length_leBytes] at several ⊢
      omega)
    exact ⟨.execute op, fitsToo, same, nofun⟩
  | .executeBatch [] | .addOwner _ | .removeOwner _ => exact absurd trivial several

theorem readOneWay_iff (fits : operation.Fits size) :
    (∀ second : Operation, second.Fits size → second.bytes = operation.bytes →
      second.effect = operation.effect) ↔ operation.ReadOneWay size := by
  constructor
  · intro one
    by_contra several
    obtain ⟨second, fitsToo, same, other⟩ := fits.exists_other several
    exact other (one second fitsToo same)
  · intro one second
    exact fits.effect_eq one

end Operation.Fits

end Payloads

namespace Wallet

variable {signing : Signing} {wallet : Wallet}

/-- An owner with a signature under the hash. -/
def Signer (signing : Signing) (wallet : Wallet) (txHash signer : Text) : Prop :=
  wallet.isOwner signer = true ∧ ∃ sig, signing.ecrecover txHash sig = some signer

/-- Only owners are counted, and each of them once. -/
theorem validateTx_signers {txHash : Text} {signatures seen : List Text} (distinct : seen.Nodup)
    (owners : ∀ signer ∈ seen, wallet.Signer signing txHash signer)
    (valid : wallet.validateTx signing txHash signatures seen = true) :
    ∃ signers : List Text, signers.Nodup ∧ wallet.threshold ≤ signers.length ∧
      ∀ signer ∈ signers, wallet.Signer signing txHash signer := by
  induction signatures generalizing seen with
  | nil => cases valid
  | cons sig rest ih =>
    unfold validateTx at valid
    split at valid
    case h_1 => exact ih distinct owners valid
    case h_2 signer recovered =>
    split at valid
    case isTrue => exact ih distinct owners valid
    case isFalse counted =>
    obtain ⟨fresh, isOwner⟩ := not_or.mp counted
    have nodup := List.nodup_cons.mpr ⟨fresh, distinct⟩
    have all := List.forall_mem_cons.mpr ⟨⟨Bool.not_eq_false _ ▸ isOwner, sig, recovered⟩, owners⟩
    split at valid
    case isTrue enough => exact ⟨_, nodup, enough, all⟩
    case isFalse => exact ih nodup all valid

end Wallet

/-- A transfer with call data, and a batch of two without. -/
def signedTransfer : Operation := .execute ⟨List.replicate 12 5, 0, List.replicate 12 6 ++ leBytes 16 9⟩
def otherBatch : Operation := .executeBatch [⟨List.replicate 12 5, 0, []⟩, ⟨List.replicate 12 6, 9, []⟩]

/-- A transfer with less call data than an entry. -/
def shortTransfer : Operation := .execute ⟨List.replicate 12 5, 7, List.replicate 27 6⟩

/-- The only signatures in the world are for one operation. -/
def onceSigning (operation : Operation) : Signing where
  blake2 := id
  ecrecover hash sig := if hash = leBytes 8 0 ++ operation.bytes then some sig else none
  zeroAddr := []

end EgoChain.Contracts
