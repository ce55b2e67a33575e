import EgoChain.Consensus.Certificates
import EgoChain.Consensus.EngineRestart

/-!
# The driver of one height

What a node does around its engine: it signs what the engine asks for, keeps the
signatures it is shown, writes the vote record before a vote leaves, gives up a
committee that does not finish, and moves on to the committee that replaces it.

A node's state is its driver together with the vote record on disk.  Ghost
fields log every message the node has signed and every decision its engine has
reported.  What leaves a node is what it has signed; sending a message again
changes nothing and is not modelled.  Clocks and presence enter as the flags of
a call: whether the node may vote, whether it has waited long enough to give
up, and whether a committee ahead could take over.
-/

namespace EgoChain.Consensus

open EgoChain.Foundations

/-- What all nodes agree on at one height: the chain state they read, and which
addresses are faulty.  A block that passes validation has the hash of its contents,
which names another value than the empty text does. -/
structure HeightSetting extends HeightView where
  parentHash : Text
  faulty : List Address
  blake3 : Text → ValueId
  validate : Block → List Address → Bool
  hashed : ∀ block miners, validate block miners = true →
    tmValueId blake3 block.hash ≠ tmValueId blake3 []

def HeightSetting.valueId (setting : HeightSetting) (hash : Text) : ValueId :=
  tmValueId setting.blake3 hash

/-- The vote record a node keeps on disk. -/
structure Wal where
  tm : Saved
  parent : Text
  attempt : Nat
  skips : List TmSkipCert
  gaveUp : Option TmSkipVote
  lockPol : Option TmLock
  lockBlock : Option Block

/-- A proposal whose block is still being checked. -/
structure Waiting where
  round : Nat
  sender : Nat
  value : ValueId
  polRound : Option Nat

/-- A validation under way: the value, its block, and the miners it may come from. -/
structure Check where
  value : ValueId
  block : Block
  miners : List Address

abbrev SigKey := VoteKind × Nat × ValueId

structure Driver where
  attempt : Nat
  skips : List TmSkipCert
  members : List Address
  miners : List Address
  me : Option Nat
  engine : Tendermint
  names : KeyedMap ValueId Text
  payloads : KeyedMap ValueId Block
  verdicts : KeyedMap ValueId Bool
  checking : List ValueId
  waiting : List Waiting
  sigs : KeyedMap SigKey (KeyedMap Nat Signature)
  pendingPropose : Option Nat
  decided : Option (Nat × ValueId)
  gaveUp : Option TmSkipVote
  giveUps : KeyedMap Address TmSkipVote
  ahead : KeyedMap Nat (KeyedMap Address TmSkipVote)
  lockPol : Option TmLock
  carried : Option TmLock

/-- A decision the engine reported, and whether the node had given the attempt up. -/
structure Decision where
  attempt : Nat
  round : Nat
  value : ValueId
  silent : Bool
  deriving DecidableEq

/-- A node whose driver is running. -/
structure Session extends Driver where
  wal : Option Wal
  signed : List Message
  decisions : List Decision
  checks : List Check

/-- A proposal as it travels. -/
structure TmProposal where
  height : Nat
  round : Nat
  polRound : Option Nat
  block : Block
  proposer : Address
  sig : Signature
  polVotes : List (Address × Signature)
  attempt : Nat
  skips : List TmSkipCert

structure TmVote where
  height : Nat
  round : Nat
  kind : VoteKind
  value : Option Text
  voter : Address
  sig : Signature
  attempt : Nat

structure TmSkip where
  height : Nat
  attempt : Nat
  vote : TmSkipVote
  block : Option Block

def aheadAttemptsKept : Nat := 8

/-- The node's place on a committee, if it may vote there. -/
def seat (members : List Address) (address : Address) (able : Bool) : Option Nat :=
  if able then members.idxOf? address else none

def addSig (sigs : KeyedMap SigKey (KeyedMap Nat Signature)) (key : SigKey) (member : Nat)
    (sig : Signature) : KeyedMap SigKey (KeyedMap Nat Signature) :=
  sigs.insert key (((sigs.lookup key).getD ∅).insert member sig)

namespace Driver

variable (setting : HeightSetting) (driver : Driver)

def indexOf (address : Address) : Option Nat :=
  driver.members.idxOf? address

def mayMoveOn : Bool :=
  driver.attempt < tmMaxAttempt || extendedAttemptsAt setting.height

/-- The text under which the node signs a value. -/
def nameOf (value : ValueId) : Text :=
  (driver.names.lookup value).getD (hexEncode value)

def voteMessage (kind : VoteKind) (round : Nat) (value : Option ValueId) : Message :=
  tmVoteMessageAt driver.attempt kind setting.height round (value.map driver.nameOf)

/-- The signatures kept under a key, each with its member, in the order of their seats. -/
def listSigs (sigs : KeyedMap Nat Signature) : List (Address × Signature) :=
  sigs.ascending.map fun entry => (driver.members.getD entry.1 [], entry.2)

def polFor (round : Nat) (value : ValueId) : Option TmLock :=
  match driver.names.lookup value with
  | none => none
  | some name =>
    match driver.lockPol.filter fun lock => lock.round = round ∧ lock.value = name with
    | some lock => some lock
    | none =>
      match driver.sigs.lookup (.prevote, round, value) with
      | none => none
      | some sigs =>
        if sigs.entries.length < quorumOf driver.members.length then none
        else some {
          round := round
          value := name
          pol := driver.listSigs sigs
          attempt := if compactSkip driver.attempt then some driver.attempt else none }

end Driver

namespace Session

section

variable (setting : HeightSetting) (address : Address)
  (order : IterOrder) (now : Nat) (session : Session)

def persist : Session :=
  if session.me.isNone then session
  else
    let lockBlock :=
      (session.lockPol.bind fun lock => session.payloads.lookup (setting.valueId lock.value)).or
        (session.engine.carried.bind session.payloads.lookup)
    { session with
      wal := some {
        tm := session.engine.saved
        parent := setting.parentHash
        attempt := session.attempt
        skips := session.skips
        gaveUp := session.gaveUp
        lockPol := session.lockPol
        lockBlock := lockBlock } }

/-! ## Carrying out what the engine asks for -/

/-- Sign a vote and keep the signature with those of the other members. -/
def signVote (kind : VoteKind) (round : Nat) (value : Option ValueId) : Session :=
  let message := session.voteMessage setting kind round value
  let sigs := match value, session.me with
    | some v, some me => addSig session.sigs (kind, round, v) me ⟨address, message⟩
    | _, _ => session.sigs
  { session with sigs := sigs, signed := session.signed ++ [message] }

/-- Offer a block again that is already known, to the own engine too. -/
def offer (round : Nat) (polRound : Option Nat) (value : ValueId) : Session × List Action :=
  match session.me, session.payloads.lookup value with
  | some me, some block =>
    let (engine, more) := session.engine.onProposal order now round me value polRound true
    ({ session with
        engine := engine
        signed := session.signed ++
          [tmProposalMessageAt session.attempt setting.height round polRound block.hash] },
      more)
  | _, _ => (session, [])

/-- One action of the queue: the next state, whether a vote was signed, and the actions
that join the queue. -/
def act (silent : Bool) (session : Session) : Action → Session × Bool × List Action
  | .propose round polRound value =>
    if silent then (session, false, [])
    else
      match value with
      | none => ({ session with pendingPropose := some round }, false, [])
      | some v =>
        let (session, more) := session.offer setting order now round polRound v
        (session, false, more)
  | .vote kind round value =>
    if silent then (session, false, [])
    else (session.signVote setting address kind round value, true, [])
  | .decide round value =>
    ({ session with
        decided := some (round, value)
        decisions := session.decisions ++ [⟨session.attempt, round, value, silent⟩] },
      false, [])

/-- The queue of `apply`; the flag says whether a vote was signed. -/
def drain (order : IterOrder) (now : Nat) (silent : Bool) : Nat → List Action → Session → Session × Bool
  | 0, _, session => (session, false)
  | _, [], session => (session, false)
  | fuel + 1, action :: rest, session =>
    let (session, voted, more) := session.act setting address order now silent action
    let (session, later) := drain order now silent fuel (rest ++ more) session
    (session, voted || later)

/-- Keep the prevotes behind a new lock; the flag says whether there was one. -/
def refreshLock : Session × Bool :=
  match session.engine.locked with
  | none => (session, false)
  | some (round, value) =>
    if session.lockPol.all fun lock =>
        lock.round ≠ round ∨ session.names.lookup value ≠ some lock.value then
      match session.polFor round value with
      | some lock => ({ session with lockPol := some lock }, true)
      | none => (session, false)
    else (session, false)

def apply (actions : List Action) (session : Session) : Session :=
  let fuel := actions.length + session.engine.workLeft + 1
  let (session, voted) :=
    session.drain setting address order now session.gaveUp.isSome fuel actions
  let (session, fresh) := session.refreshLock
  if voted || fresh then session.persist setting else session

/-! ## Starting -/

def keepPol (sigs : KeyedMap SigKey (KeyedMap Nat Signature)) (key : SigKey)
    (members : List Address) (pol : List (Address × Signature)) :
    KeyedMap SigKey (KeyedMap Nat Signature) :=
  pol.foldl (fun sigs entry =>
    match members.idxOf? entry.1 with
    | some member => addSig sigs key member entry.2
    | none => sigs) sigs

def rebuildVotesAfterRestart : Session :=
  if session.gaveUp.isSome then session
  else
    let session := session.engine.saved.sent.foldl (fun session vote =>
      session.signVote setting address vote.2.1 vote.1 vote.2.2) session
    match session.lockPol with
    | none => session
    | some lock =>
      { session with
        sigs := keepPol session.sigs (.prevote, lock.round, setting.valueId lock.value)
          session.members lock.pol }

end

end Session

variable (setting : HeightSetting) (address : Address) (able : Bool)

/-- The driver of an attempt, with what a vote record adds to it. -/
def Driver.startAt (skips : List TmSkipCert) (chain : SkipChain) (resume : Option Wal)
    (lockBlock : Option Block) : Driver :=
  let me := seat chain.committee address able
  let carriedId := chain.carried.map fun lock => setting.valueId lock.value
  let gaveUp := (resume.bind Wal.gaveUp).filter fun _ => me.isSome
  let names : KeyedMap ValueId Text := match lockBlock with
    | some block => AList.insert (setting.valueId block.hash) block.hash ∅
    | none => ∅
  { attempt := attemptOf skips
    skips := skips
    members := chain.committee
    miners := chain.miners
    me := me
    engine := Tendermint.rebuild setting.height chain.committee.length me {} carriedId
      (if me.isSome then resume.map Wal.tm else none)
    names := match chain.carried with
      | some lock => names.insert (setting.valueId lock.value) lock.value
      | none => names
    payloads := match lockBlock with
      | some block => AList.insert (setting.valueId block.hash) block ∅
      | none => ∅
    verdicts := ∅
    checking := []
    waiting := []
    sigs := ∅
    pendingPropose := none
    decided := none
    gaveUp := gaveUp
    giveUps := match gaveUp with
      | some vote => AList.insert vote.voter vote ∅
      | none => ∅
    ahead := ∅
    lockPol := resume.bind Wal.lockPol
    carried := chain.carried }

/-- `Driver::build`: the driver at the attempt the vote record names, or at the first. -/
def Driver.build (wal : Option Wal) : Option Driver :=
  let wal := wal.filter fun wal =>
    wal.parent = setting.parentHash ∧ wal.tm.height = setting.height
  let skips := (wal.map Wal.skips).getD []
  let lockBlock := wal.bind Wal.lockBlock
  match setting.skipChain skips with
  | .ok chain => some (Driver.startAt setting address able skips chain wal lockBlock)
  | .error _ =>
    match setting.skipChain [] with
    | .ok chain => some (Driver.startAt setting address able [] chain none lockBlock)
    | .error _ => none

namespace Session

section

/-- `ensure_driver` once the driver is built. -/
def begin (order : IterOrder) (now : Nat) (session : Session) : Session :=
  let (engine, actions) := session.engine.start order now
  let session := { session with engine := engine }.rebuildVotesAfterRestart setting address
  session.apply setting address order now actions

/-! ## Giving up and moving on -/

variable (session : Session)

/-- The lock a give-up has to report, or nothing when its prevotes are no longer here. -/
def lockToReport : Option (Option TmLock) :=
  match session.engine.locked with
  | none => some none
  | some (round, value) => (session.polFor round value).map some

def giveUpDue (waited : Bool) : Bool :=
  session.gaveUp.isNone && session.decided.isNone && session.me.isSome &&
    session.mayMoveOn setting && skipFromHeight ≤ setting.height && waited

def giveUpVote (locked : Option TmLock) : TmSkipVote :=
  if compactSkip session.attempt then
    let reported := locked.or session.carried
    { voter := address
      locked := reported
      sig := ⟨address, tmSkipMessageV2 setting.height session.attempt (reported.map fun lock =>
        (lock.attempt.getD session.attempt, lock.round, lock.value))⟩ }
  else
    { voter := address
      locked := locked
      sig := ⟨address, tmSkipMessage setting.height session.attempt (locked.map fun lock =>
        (lock.round, lock.value))⟩ }

def maybeGiveUp (waited reachable : Bool) : Session :=
  if session.giveUpDue setting waited && reachable then
    match session.lockToReport with
    | none => session
    | some locked =>
      let vote := session.giveUpVote setting address locked
      let session := { session with
        gaveUp := some vote
        signed := session.signed ++ [vote.sig.message] }.persist setting
      { session with giveUps := session.giveUps.insert vote.voter vote }
  else session

def readySkips : Option (List TmSkipCert) :=
  if session.decided.isSome || !session.mayMoveOn setting then none
  else if session.giveUps.entries.length < skipThresholdOf session.members.length then none
  else
    let cert : TmSkipCert := {
      attempt := session.attempt
      votes := session.giveUps.ascending.map Prod.snd }
    if satAdd32 session.attempt 1 > tmMaxAttempt then some [cert]
    else some (session.skips ++ [cert])

/-- Drop the lowest attempts until few enough are kept. -/
def trimAhead : Nat → KeyedMap Nat (KeyedMap Address TmSkipVote) →
    KeyedMap Nat (KeyedMap Address TmSkipVote)
  | 0, ahead => ahead
  | fuel + 1, ahead =>
    if ahead.entries.length > aheadAttemptsKept then
      match ahead.ascending.head? with
      | some lowest => trimAhead fuel (ahead.erase lowest.1)
      | none => ahead
    else ahead

/-- Keep a give-up of a committee ahead; with enough of them the node can jump there. -/
def collectAhead (session : Session) (attempt : Nat) (vote : TmSkipVote)
    (committee : List Address) (earlier : Nat → Option (List Address)) :
    Session × Option (List TmSkipCert) :=
  match vote.verifyWith setting.height attempt committee earlier with
  | .error _ => (session, none)
  | .ok () =>
    let votes : KeyedMap Address TmSkipVote :=
      ((session.ahead.lookup attempt).getD ∅).insert vote.voter vote
    let ahead := session.ahead.insert attempt votes
    ({ session with ahead := trimAhead ahead.entries.length ahead },
      if votes.entries.length ≥ skipThresholdOf committee.length then
        some [{ attempt := attempt, votes := votes.ascending.map Prod.snd }]
      else none)

/-- The first half of `enter`: what changes when a node moves to another committee. -/
def moveTo (able : Bool) (skips : List TmSkipCert) (chain : SkipChain) (session : Session) :
    Session :=
  let attempt := attemptOf skips
  let me := seat chain.committee address able
  let carriedId := chain.carried.map fun lock => setting.valueId lock.value
  { session with
    attempt := attempt
    skips := skips
    carried := chain.carried
    members := chain.committee
    miners := chain.miners
    me := me
    engine := Tendermint.rebuild setting.height chain.committee.length me {} carriedId none
    names := match chain.carried with
      | some lock => session.names.orInsert (setting.valueId lock.value) lock.value
      | none => session.names
    waiting := []
    sigs := ∅
    pendingPropose := none
    gaveUp := none
    giveUps := ∅
    ahead := session.ahead.retain (attempt ≤ ·)
    lockPol := none }

variable (order : IterOrder) (now : Nat) (able : Bool) (skips : List TmSkipCert)

def enter (chain : SkipChain) (session : Session) : Session :=
  let session := session.moveTo setting address able skips chain
  let (engine, actions) := session.engine.start order now
  ({ session with engine := engine }.apply setting address order now actions).persist setting

/-- `advance`: move to a later attempt if its chain of certificates checks out. -/
def advance (session : Session) : Session :=
  if session.attempt ≥ attemptOf skips then session
  else
    match setting.skipChain skips with
    | .error _ => session
    | .ok chain => session.enter setting address order now able skips chain

variable (message : TmSkip)

/-- Keep the block behind a reported lock, if it came along. -/
def keepLockBlock (session : Session) : Session :=
  match message.vote.locked, message.block with
  | some lock, some block =>
    if block.hash = lock.value ∧ block.height = setting.height ∧
        block.prevHash = setting.parentHash then
      { session with
        names := session.names.orInsert (setting.valueId block.hash) block.hash
        payloads := session.payloads.orInsert (setting.valueId block.hash) block }
    else session
  | _, _ => session

/-- `on_give_up`; the second part is what it hands to `advance`. -/
def onGiveUp (session : Session) : Session × Option (List TmSkipCert) :=
  if message.height ≠ setting.height ∨ session.decided.isSome then (session, none)
  else
    let backingAttempt := (message.vote.lockAttempt message.attempt).filter (· ≠ message.attempt)
    let earlier := fun attempt =>
      if some attempt = backingAttempt then setting.committeeForAttempt attempt else none
    if message.attempt < session.attempt then (session, none)
    else if message.attempt > session.attempt then
      match if compactSkip message.attempt then setting.committeeForAttempt message.attempt
          else none with
      | none => (session, none)
      | some committee =>
        session.collectAhead setting message.attempt message.vote committee earlier
    else if (session.giveUps.lookup message.vote.voter).isSome then (session, none)
    else
      match message.vote.verifyWith setting.height message.attempt session.members earlier with
      | .error _ => (session, none)
      | .ok () =>
        let session := session.keepLockBlock setting message
        let session := { session with
          giveUps := session.giveUps.insert message.vote.voter message.vote }
        (session, session.readySkips setting)

/-! ## Votes and proposals -/

def onVote (message : TmVote) (session : Session) : Session :=
  if message.height ≠ setting.height ∨ message.attempt ≠ session.attempt then session
  else
    match session.indexOf message.voter with
    | none => session
    | some member =>
      if some member = session.me then session
      else if !tmSignatureOk message.voter (tmVoteMessageAt message.attempt message.kind
          message.height message.round message.value) message.sig then session
      else
        let session := match message.value with
          | some name =>
            { session with
              names := session.names.orInsert (setting.valueId name) name
              sigs := addSig session.sigs (message.kind, message.round, setting.valueId name)
                member message.sig }
          | none => session
        let (engine, actions) := session.engine.onVote order now message.kind message.round
          member (message.value.map setting.valueId)
        { session with engine := engine }.apply setting address order now actions

/-- The prevotes that come with a proposal, checked one by one. -/
def takePolVotes (order : IterOrder) (now round : Nat) (hash : Text) :
    List (Address × Signature) → Session → Session × List Action
  | [], session => (session, [])
  | (voter, sig) :: rest, session =>
    match session.indexOf voter with
    | none => takePolVotes order now round hash rest session
    | some member =>
      if tmSignatureOk voter (tmVoteMessageAt session.attempt .prevote setting.height round
          (some hash)) sig then
        let (engine, actions) := session.engine.onVote order now .prevote round member
          (some (setting.valueId hash))
        let (session, later) := takePolVotes order now round hash rest { session with
            engine := engine
            sigs := addSig session.sigs (.prevote, round, setting.valueId hash) member sig }
        (session, actions ++ later)
      else takePolVotes order now round hash rest session

/-- The end of `on_proposal`: a block with a verdict goes to the engine, any other waits
for its check. -/
def weigh (message : TmProposal) (index : Nat) (actions : List Action) (session : Session) :
    Session :=
  let value := setting.valueId message.block.hash
  let session := { session with payloads := session.payloads.orInsert value message.block }
  match session.verdicts.lookup value with
  | some ok =>
    let (engine, more) := session.engine.onProposal order now message.round index value
      message.polRound ok
    { session with engine := engine }.apply setting address order now (actions ++ more)
  | none =>
    let session := { session with
      waiting := session.waiting ++ [Waiting.mk message.round index value message.polRound]
      checking := if value ∈ session.checking then session.checking
        else value :: session.checking
      checks := if value ∈ session.checking then session.checks
        else session.checks ++ [Check.mk value message.block session.miners] }
    session.apply setting address order now actions

/-- `on_proposal` at the attempt of the proposal. -/
def takeProposal (message : TmProposal) (session : Session) : Session :=
  if message.polRound.any (message.round ≤ ·) then session
  else if message.attempt ≠ session.attempt then session
  else
    let index := session.engine.proposer message.round
    if session.members[index]? ≠ some message.proposer ∨ message.block.height ≠ setting.height ∨
        message.block.prevHash ≠ setting.parentHash then session
    else if !tmSignatureOk message.proposer (tmProposalMessageAt message.attempt setting.height
        message.round message.polRound message.block.hash) message.sig then session
    else
      let value := setting.valueId message.block.hash
      let session := { session with names := session.names.orInsert value message.block.hash }
      let (session, actions) := match message.polRound with
        | some polRound => session.takePolVotes setting order now polRound message.block.hash
            message.polVotes
        | none => (session, [])
      session.weigh setting address order now message index actions

def onProposal (able : Bool) (message : TmProposal) (session : Session) : Session :=
  if message.height ≠ setting.height then session
  else if message.attempt > session.attempt then
    if attemptOf message.skips ≠ message.attempt then session
    else
      let session := session.advance setting address order now able message.skips
      if session.attempt = message.attempt then
        session.takeProposal setting address order now message
      else session
  else session.takeProposal setting address order now message

/-- Hand the proposals that waited for a verdict to the engine. -/
def releaseWaiting (order : IterOrder) (now : Nat) (ok : Bool) :
    List Waiting → Tendermint → Tendermint × List Action
  | [], engine => (engine, [])
  | waiting :: rest, engine =>
    let (engine, actions) := engine.onProposal order now waiting.round waiting.sender
      waiting.value waiting.polRound ok
    let (engine, later) := releaseWaiting order now ok rest engine
    (engine, actions ++ later)

def settle (value : ValueId) (ok : Bool) (session : Session) : Session :=
  let ready := session.waiting.filter fun waiting => waiting.value = value
  let (engine, actions) := releaseWaiting order now ok ready session.engine
  let (engine, more) := engine.onValue order now value ok
  { session with
    engine := engine
    checking := session.checking.filter (· ≠ value)
    verdicts := session.verdicts.insert value ok
    waiting := session.waiting.filter fun waiting => waiting.value ≠ value }.apply setting address
      order now (actions ++ more)

/-- `maybe_propose` with a block the node built, if its own check passed it. -/
def propose (block : Block) (ok : Bool) (session : Session) : Session :=
  match session.pendingPropose with
  | none => session
  | some round =>
    if session.gaveUp.isSome ∨ session.engine.round ≠ round ∨ session.engine.step ≠ .propose ∨
        session.decided.isSome then
      { session with pendingPropose := none }
    else if block.height ≠ setting.height ∨ block.prevHash ≠ setting.parentHash ∨ !ok then
      session
    else
      match session.me with
      | none => session
      | some me =>
        let value := setting.valueId block.hash
        let message := tmProposalMessageAt session.attempt setting.height round none block.hash
        let (engine, actions) := session.engine.onProposal order now round me value none true
        { session with
          names := session.names.insert value block.hash
          payloads := session.payloads.insert value block
          verdicts := session.verdicts.insert value true
          pendingPropose := none
          signed := session.signed ++ [message]
          engine := engine }.apply setting address order now actions

/-- `tick` up to where it hands ready certificates to `advance`. -/
def tick (waited reachable : Bool) (session : Session) : Session × Option (List TmSkipCert) :=
  let (engine, actions) := session.engine.tick order now
  let session := { session with engine := engine }.apply setting address order now actions
  let session := session.maybeGiveUp setting address waited reachable
  (session, session.readySkips setting)

end

end Session

/-! ## Committing -/

/-- The certificate `maybe_commit` assembles for the decided block, if it can. -/
def Driver.assemble (driver : Driver) : Option (Block × TmCert) :=
  match driver.decided with
  | none => none
  | some (round, value) =>
    match driver.payloads.lookup value, driver.sigs.lookup (.precommit, round, value) with
    | some block, some votes =>
      let quorum := quorumOf driver.members.length
      if votes.entries.length < quorum then none
      else
        let chosen := (driver.listSigs votes).take quorum
        some (block,
          if driver.attempt = 0 then { v := tmCertVersion, round := round, votes := chosen }
          else {
            v := tmCertV4
            round := round
            votes := chosen
            attempt := driver.attempt
            skips := driver.skips })
    | _, _ => none

end EgoChain.Consensus
