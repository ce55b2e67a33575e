import EgoChain.Ledger.PeerBlock
import EgoChain.Nodes.Records
import Mathlib.Data.List.Destutter

/-!
# Weights of nodes

A node earns weight with check-ins, storage and coverage, and loses it when they
grow old.  A record is weighed anew when something happens to it; so that it is
also weighed when only time passes, a queue holds the moments at which weights
fall, and every block begins with what has fallen due.
-/

namespace EgoChain.Nodes

open EgoChain.Foundations EgoChain.Ledger

/-! ## Constants -/

def checkinIntervalSecs : Int := 12 * 3600
def streakGapSecs : Int := 26 * 3600
def fullMinStreak : Nat := 4
def uptimeCap : Nat := 60
def storagePointsPerGb : Nat := 10
def storageCap : Nat := 10000
def coveragePointsPerWitness : Nat := 2
def coverageCapWitnesses : Nat := 20
def coverageValidSecs : Int := 8 * 86400
def coverageMinSpacingSecs : Int := 6 * 86400
def nodeRewardPerDayUegoc : Nat := 50000 * 1000000
def checkinHalvingStartTs : Int := 1792382606
def checkinHalvingSecs : Int := 1461 * 86400
def maxExpiriesPerBlock : Nat := 20000
def fastStartRecountMax : Nat := 100000
def treeLevels : Nat := 8
def treeFanoutBits : Nat := 4
def treeFanout : Nat := 2 ^ treeFanoutBits
def fullCommitteeSize : Nat := 32
def rotaLen : Nat := 128
def gb : Nat := 1000000000
def storagePayFromHeight : Nat := 35000
def maxI64 : Int := 2 ^ 63 - 1

/-- `+` on `i64` wraps around. -/
def wrapI64 (number : Int) : Int := (number + 2 ^ 63) % 2 ^ 64 - 2 ^ 63

def minStreak (period : Nat) : Nat := if periodOf fastStartHeight ≤ period then 1 else fullMinStreak

def nodeRewardPerDayAt (now : Int) : Nat :=
  let era := (max (satI64 (now - checkinHalvingStartTs)) 0 / checkinHalvingSecs).toNat
  if 64 ≤ era then 0 else nodeRewardPerDayUegoc >>> era

/-- The first height of an epoch. -/
def epochStart (number : Nat) : Nat :=
  if number < shortEpochFirst then satAdd (satMul number epoch) 1
  else satAdd (satMul (number - shortEpochFirst) shortEpoch) shortEpochFromHeight

def endsEpoch (height : Nat) : Bool := epochOf (satAdd height 1) ≠ epochOf height

def firstDrsEpoch : Nat := epochOf drsFromHeight

/-! ## Versions -/

namespace Versioned

variable (value : Versioned) (period : Nat)

def roll : Versioned :=
  if value.since ≤ period then { value with active := value.next } else value

def set (next : Nat) : Versioned :=
  { value.roll period with next := next, since := period + 1 }

def add (delta : Int) : Versioned :=
  { value.roll period with
    next := min (value.next + delta).toNat maxU64
    since := period + 1 }

end Versioned

/-! ## The weight of a record -/

variable (node : NodeRec) (now : Int)

def storagePoints : Nat :=
  if now ≤ node.storageUntil then
    min (satMul (node.storageBytes / gb) storagePointsPerGb) storageCap
  else 0

def coveragePoints : Nat :=
  if now ≤ satI64 (node.coverageAt + coverageValidSecs) then
    min node.coverage coverageCapWitnesses * coveragePointsPerWitness
  else 0

def weightOf (keysOk : Bool) (period : Nat) : Nat :=
  if keysOk = false ∨ node.popKey = [] ∨ node.streak < minStreak period ∨
      streakGapSecs < satI64 (now - node.lastCheckin) then 0
  else min node.streak uptimeCap + storagePoints node now + coveragePoints node now

/-- The moments at which a part of the weight falls away. -/
def dropTimes : List Int :=
  (if 0 < node.streak then [wrapI64 (satI64 (node.lastCheckin + streakGapSecs) + 1)] else []) ++
    (if gb ≤ node.storageBytes then [wrapI64 (node.storageUntil + 1)] else []) ++
    (if 0 < node.coverage then [wrapI64 (satI64 (node.coverageAt + coverageValidSecs) + 1)] else [])

def nextDrop : Option Int :=
  ((dropTimes node).filter fun time => now < time).min?

/-! ## The books -/

/-- How the node rules read transactions. -/
structure NodeReader extends NodeEnv where
  /-- `parse_validator_registration`: the address and the BLS key. -/
  parseRegistration : LedgerTx → Option (Text × Text)
  /-- `registration_pop`: the BLS key, if its possession is proven. -/
  registrationPop : LedgerTx → Text → Option Text
  registrationDilithiumKey : LedgerTx → Option Text
  /-- The groups of a check-in batch, with their members if they can be read. -/
  readCheckins : Text → Option (List (Option (List Nat)))
  /-- The epoch and the positions of a batch of ready nodes. -/
  readReady : Text → Option (Nat × Option (List Nat))
  /-- The provers and the witnesses of a coverage batch. -/
  readCoverage : Text → Option (List (Nat × Option (List Nat)))

/-- The records with all that is counted beside them. -/
structure NodeBooks extends NodeState where
  /-- The addresses by index, and how many there are. -/
  addrs : KeyedMap Nat Text := ∅
  count : Nat := 0
  /-- The sums of weights by level and place. -/
  tree : KeyedMap (Nat × Nat) Versioned := ∅
  eligible : Versioned := {}
  storageWeights : KeyedMap Text Versioned := ∅
  storageTotal : Versioned := {}
  /-- The keys of the queue: a time that is not negative, and an address. -/
  expiries : List (Int × Text) := []

namespace NodeBooks

def hasConsensusKey (env : NodeEnv) (books : NodeBooks) (addr : Text) : Bool :=
  (env.genesis.any fun validator => validator.address = addr && !validator.dilithiumPubkey.isEmpty) ||
    (books.dilithium.lookup addr).any fun key => !key.isEmpty

variable (books : NodeBooks)

def treeAt (level place period : Nat) : Nat :=
  ((books.tree.lookup (level, place)).getD {}).at' period

def totalWeight (period : Nat) : Nat := books.treeAt treeLevels 0 period

/-- Add to the sums of all levels above an index. -/
def treeAdd (idx period : Nat) (delta : Int) : NodeBooks :=
  { books with
    tree := (List.range (treeLevels + 1)).foldl (fun tree level =>
        let place := (level, idx >>> (level * treeFanoutBits))
        tree.insert place (((tree.lookup place).getD {}).add period delta)) books.tree }

/-- A node that gains its first weight counts as eligible until it loses the last of it. -/
def countEligible (period old weight : Nat) : NodeBooks :=
  if (old = 0) = (weight = 0) then books
  else { books with eligible := books.eligible.add period (if 0 < weight then 1 else -1) }

def weighStorage (addr : Text) (period points : Nat) : NodeBooks :=
  let stored := (books.storageWeights.lookup addr).getD {}
  if stored.next = points then books
  else { books with
    storageWeights := books.storageWeights.insert addr (stored.set period points)
    storageTotal := books.storageTotal.add period (points - stored.next) }

/-- `expiry_key`: times before zero are stored as zero. -/
def expiryKey (time : Int) (addr : Text) : Int × Text := (max time 0, addr)

def schedule (books : NodeBooks) (time : Int) (addr : Text) : NodeBooks :=
  if expiryKey time addr ∈ books.expiries then books
  else { books with expiries := expiryKey time addr :: books.expiries }

def scheduleNext (books : NodeBooks) (addr : Text) : Option Int → NodeBooks
  | none => books
  | some time => books.schedule time addr

end NodeBooks

/-- The record with a weight from the next period on. -/
def NodeRec.reweigh (node : NodeRec) (period weight : Nat) : NodeRec :=
  if weight = node.weight.next then node
  else { node with weight := node.weight.set period weight }

namespace NodeBooks

/-- A weight that changes is counted in the sums. -/
def countWeight (books : NodeBooks) (node : NodeRec) (period weight : Nat) : NodeBooks :=
  let old := node.weight.next
  if weight = old then books
  else (books.treeAdd node.idx period (weight - old)).countEligible period old weight

/-- From a certain period on, the storage of nodes with weight is counted on its own. -/
def countStorage (books : NodeBooks) (addr : Text) (node : NodeRec) (now : Int)
    (period weight : Nat) : NodeBooks :=
  if periodOf splitFromHeight ≤ period then
    books.weighStorage addr period (if 0 < weight then min (storagePoints node now) weight else 0)
  else books

def refresh (env : NodeEnv) (books : NodeBooks) (addr : Text) (node : NodeRec) (now : Int)
    (period : Nat) : NodeBooks × NodeRec :=
  let weight := weightOf node now (books.hasConsensusKey env addr) period
  let counted := (books.countWeight node period weight).countStorage addr node now period weight
  (counted.scheduleNext addr (nextDrop node now), node.reweigh period weight)

def saveRec (books : NodeBooks) (addr : Text) (node : NodeRec) : NodeBooks :=
  { books with records := books.records.insert addr node }

/-- Weigh a record and save it. -/
def touch (env : NodeEnv) (books : NodeBooks) (addr : Text) (node : NodeRec) (now : Int)
    (period : Nat) : NodeBooks :=
  let refreshed := books.refresh env addr node now period
  refreshed.1.saveRec addr refreshed.2

/-! ## What falls due -/

/-- The order of the keys in the database. -/
def keyLe (first second : Int × Text) : Bool :=
  first.1 < second.1 || first.1 = second.1 && first.2 ≤ second.2

def dueExpiries (books : NodeBooks) (now : Int) : List (Int × Text) :=
  ((books.expiries.filter fun key => key.1 ≤ now).insertionSort fun first second =>
    keyLe first second).take maxExpiriesPerBlock

def expire (env : NodeEnv) (now : Int) (period : Nat) (books : NodeBooks) (key : Int × Text) :
    NodeBooks :=
  let books := { books with expiries := books.expiries.filter fun other => other ≠ key }
  match books.records.lookup key.2 with
  | none => books
  | some node => books.touch env key.2 node now period

def processExpiries (env : NodeEnv) (books : NodeBooks) (now : Int) (period : Nat) : NodeBooks :=
  (books.dueExpiries now).foldl (expire env now period) books

/-! ## Registrations -/

structure Registration where
  hash : Text
  addr : Text
  popKey : Option Text

variable (reader : NodeReader) (kind : Text) (txs : List LedgerTx)

def registrationsOf : List Registration :=
  (txs.filterMap fun tx => (reader.parseRegistration tx).map fun parsed =>
    ⟨tx.hash, parsed.1, reader.registrationPop tx parsed.2⟩).insertionSort
      fun first second => first.hash ≤ second.hash

def applyRegistration (env : NodeEnv) (now : Int) (period : Nat) (books : NodeBooks)
    (registration : Registration) : NodeBooks :=
  let popKey := registration.popKey.getD []
  match books.records.lookup registration.addr with
  | some node => books.touch env registration.addr { node with popKey := popKey } now period
  | none =>
    let indexed := { books with
      count := books.count + 1
      addrs := books.addrs.insert books.count registration.addr }
    indexed.touch env registration.addr { idx := books.count, popKey := popKey } now period

/-- Weigh the record at an index, if there is one. -/
def recount (env : NodeEnv) (now : Int) (period : Nat) (books : NodeBooks) (idx : Nat) : NodeBooks :=
  match books.addrs.lookup idx with
  | none => books
  | some addr =>
    match books.records.lookup addr with
    | none => books
    | some node => books.touch env addr node now period

def recountAll (env : NodeEnv) (books : NodeBooks) (now : Int) (period : Nat) : NodeBooks :=
  if fastStartRecountMax < books.count then books
  else (List.range books.count).foldl (recount env now period) books

/-! ## Check-ins -/

def checkinDue (node : NodeRec) (now : Int) : Bool :=
  node.lastCheckin = 0 || checkinIntervalSecs ≤ satI64 (now - node.lastCheckin)

def splitPay (budget base baseTotal storage storageTotal : Nat) : Nat :=
  match decide (0 < baseTotal), decide (0 < storageTotal) with
  | true, true => budget / 2 * base / baseTotal + budget / 2 * storage / storageTotal
  | true, false => budget * base / baseTotal
  | false, true => budget * storage / storageTotal
  | false, false => 0

/-- What one check-in of a block is paid by. -/
structure CheckinRates where
  split : Bool
  totalWeight : Nat
  storageTotal : Nat
  perCheckin : Nat

def checkinRates (books : NodeBooks) (height : Nat) (now : Int) (period : Nat) : CheckinRates :=
  let total := books.totalWeight period
  let split : Bool := splitFromHeight ≤ height
  { split := split
    totalWeight := total
    storageTotal := if split then min (books.storageTotal.at' period) total else 0
    perCheckin := nodeRewardPerDayAt now * checkinIntervalSecs.toNat / 86400 }

def checkinPay (books : NodeBooks) (rates : CheckinRates) (addr : Text) (node : NodeRec)
    (period poolLeft : Nat) : Nat :=
  let weight := node.weight.at' period
  if rates.split then
    let storage := min (((books.storageWeights.lookup addr).getD {}).at' period) weight
    min (splitPay rates.perCheckin (weight - storage) (rates.totalWeight - rates.storageTotal) storage
      rates.storageTotal) poolLeft
  else if 0 < rates.totalWeight then min (rates.perCheckin * weight / rates.totalWeight) poolLeft
  else 0

/-- The record after a check-in. -/
def checkedIn (node : NodeRec) (now : Int) (pay : Nat) : NodeRec :=
  { node with
    streak :=
      if 0 < node.streak ∧ satI64 (now - node.lastCheckin) ≤ streakGapSecs then
        min (node.streak + 1) (2 ^ 32 - 1)
      else 1
    lastCheckin := now
    earned := satAdd node.earned pay }

structure CheckinSums where
  books : NodeBooks
  poolLeft : Nat
  credits : List (Text × Nat)

def checkIn (env : NodeEnv) (rates : CheckinRates) (now : Int) (period : Nat) (sums : CheckinSums)
    (idx : Nat) : CheckinSums :=
  match sums.books.addrs.lookup idx with
  | none => sums
  | some addr =>
    match sums.books.records.lookup addr with
    | none => sums
    | some node =>
      if checkinDue node now then
        let pay := sums.books.checkinPay rates addr node period sums.poolLeft
        { books := sums.books.touch env addr (checkedIn node now pay) now period
          poolLeft := sums.poolLeft - pay
          credits := if 0 < pay then sums.credits ++ [(addr, pay)] else sums.credits }
      else sums

def batchOf : Option Text :=
  (txs.find? fun tx => tx.txType = kind).map LedgerTx.callArgs

/-- The indices that check in, in order and without repetition. -/
def checkinMembers : List Nat :=
  match (batchOf (utf8 "checkin_batch") txs).bind reader.readCheckins with
  | none => []
  | some groups =>
    (((groups.filterMap id).flatten).insertionSort fun first second => first ≤ second).destutter
      fun first second => first ≠ second

def applyCheckins (books : NodeBooks) (height : Nat) (now : Int) (period : Nat)
    (txs : List LedgerTx) (poolBalance : Nat) : NodeBooks × List (Text × Nat) :=
  let rates := books.checkinRates height now period
  let sums := (checkinMembers reader txs).foldl (checkIn reader.toNodeEnv rates now period)
    ⟨books, poolBalance, []⟩
  (sums.books, sums.credits)

/-! ## Coverage and storage -/

def isLiveIn (books : NodeBooks) (addr : Text) (now : Int) (period : Nat) : Bool :=
  (books.records.lookup addr).any fun node =>
    minStreak period ≤ node.streak && satI64 (now - node.lastCheckin) ≤ streakGapSecs

def recordCoverage (env : NodeEnv) (books : NodeBooks) (addr : Text) (witnesses : Nat) (now : Int)
    (height : Nat) : NodeBooks :=
  if height < checkinFromHeight then books
  else
    match books.records.lookup addr with
    | none => books
    | some node =>
      if 0 < node.coverageAt ∧ satI64 (now - node.coverageAt) < coverageMinSpacingSecs then books
      else books.touch env addr
        { node with coverage := min witnesses (2 ^ 32 - 1), coverageAt := now } now (periodOf height)

def recordStorage (env : NodeEnv) (books : NodeBooks) (addr : Text) (bytes : Nat) (until' now : Int)
    (height : Nat) : NodeBooks :=
  if height < checkinFromHeight then books
  else
    match books.records.lookup addr with
    | none => books
    | some node =>
      books.touch env addr { node with storageBytes := bytes, storageUntil := until' } now
        (periodOf height)

/-- The witnesses of a prover that are live, each once. -/
def liveWitnesses (books : NodeBooks) (prover : Nat) (witnesses : Option (List Nat)) (now : Int)
    (period : Nat) : List Nat :=
  ((witnesses.getD []).filter fun witness => witness ≠ prover &&
    (books.addrs.lookup witness).any fun addr => books.isLiveIn addr now period).dedup

def applyCoverageProof (env : NodeEnv) (height : Nat) (now : Int) (books : NodeBooks)
    (proof : Nat × Option (List Nat)) : NodeBooks :=
  match books.addrs.lookup proof.1 with
  | none => books
  | some prover =>
    books.recordCoverage env prover
      (books.liveWitnesses proof.1 proof.2 now (periodOf height)).length now height

def applyCoverage (books : NodeBooks) (height : Nat) (now : Int) (txs : List LedgerTx) :
    NodeBooks :=
  match (batchOf (utf8 "coverage_batch") txs).bind reader.readCoverage with
  | none => books
  | some proofs => proofs.foldl (applyCoverageProof reader.toNodeEnv height now) books

/-! ## Ready nodes -/

def setBit (bits : Text) (i : Nat) : Text :=
  let wide := bits ++ List.replicate (i / 8 + 1 - bits.length) 0
  wide.modify (i / 8) fun byte => byte ||| UInt8.ofNat (2 ^ (i % 8))

/-- The bits of an epoch with those of a batch. -/
def markReady (bits : KeyedMap Nat Text) (txs : List LedgerTx) : KeyedMap Nat Text :=
  match (batchOf kind txs).bind reader.readReady with
  | some (epoch, some positions) =>
    bits.insert epoch (positions.foldl setBit ((bits.lookup epoch).getD []))
  | _ => bits

/-! ## The rota -/

/-- The first child whose weight is above what is left of the lot. -/
def pickChild (books : NodeBooks) (period level first : Nat) : List Nat → Nat → Option (Nat × Nat)
  | [], _ => none
  | child :: rest, lot =>
    let weight := books.treeAt level (first + child) period
    if lot < weight then some (first + child, lot)
    else pickChild books period level first rest (lot - weight)

def descend (books : NodeBooks) (period : Nat) : Nat → Nat → Nat → Option Nat
  | 0, index, _ => some index
  | level + 1, index, lot =>
    match books.pickChild period level (index * treeFanout) (List.range treeFanout) lot with
    | none => none
    | some (child, left) => descend books period level child left

def sample (books : NodeBooks) (period lot : Nat) : Option Nat :=
  if books.totalWeight period ≤ lot then none else books.descend period treeLevels 0 lot

structure RotaDraw where
  picked : List Text := []
  seen : List Text := []
  deferred : List Text := []

variable (env : NodeEnv) (books : NodeBooks)

def drawRotaSeat (period epoch : Nat) (seed : Text) (cooldown : Nat) (draw : RotaDraw)
    (round : Nat) : RotaDraw :=
  if rotaLen ≤ draw.picked.length then draw
  else
    let hash := env.blake3 (utf8 "ego/rota/v2:" ++ seed ++ leBytes 8 epoch ++ leBytes 8 round)
    let lot := leNat (hash.take 16) % books.totalWeight period
    match (books.sample period lot).bind fun idx => books.addrs.lookup idx with
    | none => draw
    | some addr =>
      if addr ∈ draw.seen then draw
      else
        let seen := addr :: draw.seen
        let rested := cooldown = 0 ∨ ((books.records.lookup addr).all fun node =>
          node.served = 0 || node.served - 1 + cooldown < epoch) = true
        if rested then { draw with seen := seen, picked := draw.picked ++ [addr] }
        else { draw with seen := seen, deferred := draw.deferred ++ [addr] }

def drawRota (period epoch : Nat) (seed : Text) : List Text :=
  if books.totalWeight period = 0 then []
  else
    let cooldown := books.eligible.at' period / (2 * fullCommitteeSize)
    let draw := (List.range (rotaLen * 8)).foldl (drawRotaSeat env books period epoch seed cooldown) {}
    draw.picked ++ draw.deferred.take (rotaLen - draw.picked.length)

def drawNextRota (height period : Nat) (seed : Text) : NodeBooks :=
  let next := epochOf height + 2
  if endsEpoch height = true ∧ firstDrsEpoch ≤ next ∧ books.rotas.lookup next = none then
    { books with rotas := books.rotas.insert next ⟨seed, books.drawRota env period next seed⟩ }
  else books

/-! ## A block -/

variable (height : Nat)

/-- The maker of a block is noted in its record and in the list of makers. -/
def recordMiner (miner : Text) : NodeBooks :=
  if height < drsFromHeight then books
  else
    let served :=
      match books.records.lookup miner with
      | none => books
      | some node => books.saveRec miner { node with served := epochOf height + 1 }
    { served with toNodeState := served.toNodeState.recordMaker height miner }

/-- A block with what the writer passes to the node rules. -/
structure NodeBlock where
  height : Nat
  timestamp : Int
  miner : Text := []
  txs : List LedgerTx := []
  /-- The transaction is stored already. -/
  committed : Text → Bool := fun _ => false
  poolBalance : Nat := 0
  rotaSeed : Text := []
  /-- The members that let their turn pass. -/
  skipped : List Text := []
  /-- The hosts whose stored bytes change, with what they store. -/
  hosted : List (Text × Nat) := []
  /-- The senders of single coverage proofs, with the witnesses that count. -/
  covered : List (Text × Nat) := []

variable (block : NodeBlock)

/-- The registrations, and the recounts at two heights. -/
def registerNodes : NodeBooks :=
  let period := periodOf block.height
  let registered := (registrationsOf reader block.txs).foldl
    (applyRegistration reader.toNodeEnv block.timestamp period) books
  if block.height = fastStartHeight ∨ block.height = splitFromHeight then
    registered.recountAll reader.toNodeEnv block.timestamp period
  else registered

def applyBlock : NodeBooks × List (Text × Nat) :=
  let now := block.timestamp
  let period := periodOf block.height
  if block.height < checkinFromHeight then (books.registerNodes reader block, [])
  else
    let expired := books.processExpiries reader.toNodeEnv now period
    let registered := expired.registerNodes reader block
    let checkedIn := registered.applyCheckins reader block.height now period block.txs block.poolBalance
    let ready := { checkedIn.1 with
      ready := markReady reader (utf8 "ready_batch") checkedIn.1.ready block.txs
      tmReady := markReady reader (utf8 "tm_ready_batch") checkedIn.1.tmReady block.txs }
    let covered := ready.applyCoverage reader block.height now block.txs
    let made := covered.recordMiner block.height block.miner
    (made.drawNextRota reader.toNodeEnv block.height period block.rotaSeed, checkedIn.2)

def missTurn (epoch : Nat) (books : NodeBooks) (addr : Text) : NodeBooks :=
  { books with
    misses := books.misses.insert addr (epoch, min (books.missedTurns addr epoch + 1) (2 ^ 32 - 1)) }

def recordTurns (skipped : List Text) (miner : Text) : NodeBooks :=
  if missRuleActive height then
    let missed := (skipped.filter fun addr => addr ≠ miner).foldl (missTurn (epochOf height)) books
    if miner ≠ [] then { missed with misses := missed.misses.erase miner } else missed
  else books

/-- The keys that the registrations of a block bring; the database is asked as it was before the
block. -/
def recordKeys (before : KeyedMap Text Text) (committed : Text → Bool) (keys : KeyedMap Text Text)
    (tx : LedgerTx) : KeyedMap Text Text :=
  if committed tx.hash then keys
  else
    match reader.parseRegistration tx, reader.registrationDilithiumKey tx with
    | some (addr, _), some key => if before.lookup addr = none then keys.insert addr key else keys
    | _, _ => keys

/-- The part of writing a block that weighs nodes. -/
def weighBlock : NodeBooks :=
  let applied := (books.applyBlock reader block).1
  let turned := applied.recordTurns block.height block.skipped block.miner
  let stored :=
    if storagePayFromHeight ≤ block.height then
      block.hosted.foldl (fun books host => books.recordStorage reader.toNodeEnv host.1 host.2 maxI64
        block.timestamp block.height) turned
    else turned
  block.covered.foldl (fun books prover =>
    books.recordCoverage reader.toNodeEnv prover.1 prover.2 block.timestamp block.height) stored

/-- Write a block; the keys of new registrations come after all weights. -/
def writeBlock : NodeBooks :=
  let weighed := books.weighBlock reader block
  { weighed with
    dilithium := block.txs.foldl (recordKeys reader books.dilithium block.committed) weighed.dilithium }

end NodeBooks

end EgoChain.Nodes
