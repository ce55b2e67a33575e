import EgoChain.Consensus.Driver

/-!
# Runs of the drivers of one height

Every address runs a node.  The correct ones follow the driver, whatever
committee they sit on; the faulty ones take no step of their own, but anything
they could have signed may turn up in any message.  A message may reach any node
at any time and any number of times, as long as every signature in it that names
a correct node was made by it.  A crash loses the driver and keeps the vote
record.

The source lets go of the driver between a call that completes a give-up
certificate and the `advance` that uses it, so moving on is an event of its own,
with whatever certificates the node may hold by then.
-/

namespace EgoChain.Consensus

/-- One node: its driver, if it runs, what is on its disk, and the ghost logs. -/
structure Host where
  driver : Option Driver
  wal : Option Wal
  signed : List Message
  decisions : List Decision
  checks : List Check
  /-- The certificates the node assembled, each with its block. -/
  assembled : List (Block × TmCert)
  /-- The block of this height is on the node's chain. -/
  stored : Bool

def Host.initial : Host where
  driver := none
  wal := none
  signed := []
  decisions := []
  checks := []
  assembled := []
  stored := false

abbrev Network := Address → Host

def Network.initial : Network := fun _ => Host.initial

/-! ## The signatures in a message -/

def TmLock.sigs (lock : TmLock) : List Signature := lock.pol.map Prod.snd

def TmSkipVote.sigs (vote : TmSkipVote) : List Signature :=
  vote.sig :: (vote.locked.map TmLock.sigs).getD []

def TmSkipCert.sigs (cert : TmSkipCert) : List Signature := cert.votes.flatMap TmSkipVote.sigs

def TmCert.sigs (cert : TmCert) : List Signature :=
  cert.votes.map Prod.snd ++ cert.skips.flatMap TmSkipCert.sigs

/-- The signature's maker is faulty or did make it. -/
def Network.Made (setting : HeightSetting) (network : Network) (sig : Signature) : Prop :=
  sig.signer ∈ setting.faulty ∨ sig.message ∈ (network sig.signer).signed

instance Network.decidableMade (setting : HeightSetting) (network : Network) (sig : Signature) :
    Decidable (network.Made setting sig) := by
  unfold Network.Made
  infer_instance

inductive DriverEvent where
  | begin (able : Bool)
  | crash
  | advance (able : Bool) (skips : List TmSkipCert)
  | proposal (able : Bool) (message : TmProposal)
  | settle (index : Nat) (timely : Bool)
  | vote (message : TmVote)
  | giveUp (message : TmSkip)
  | tick (waited reachable : Bool)
  | propose (block : Block) (timely : Bool)
  | commit (stores : Bool)

namespace DriverEvent

/-- The signatures an event brings along. -/
def sigs : DriverEvent → List Signature
  | .advance _ skips => skips.flatMap TmSkipCert.sigs
  | .proposal _ message =>
    message.sig :: message.polVotes.map Prod.snd ++ message.skips.flatMap TmSkipCert.sigs
  | .vote message => [message.sig]
  | .giveUp message => message.vote.sigs
  | _ => []

/-- The rounds and attempts an event brings along. -/
def numbers : DriverEvent → List Nat
  | .advance _ skips => skips.map TmSkipCert.attempt
  | .proposal _ message => message.round :: message.skips.map TmSkipCert.attempt
  | .vote message => [message.round]
  | .giveUp message => [message.attempt]
  | _ => []

end DriverEvent

namespace Host

variable (setting : HeightSetting) (host : Host) (driver : Driver)

def session : Session :=
  { driver with
    wal := host.wal
    signed := host.signed
    decisions := host.decisions
    checks := host.checks }

def keep (session : Session) : Host :=
  { host with
    driver := some session.toDriver
    wal := session.wal
    signed := session.signed
    decisions := session.decisions
    checks := session.checks }

/-- `maybe_commit`: assemble a certificate and hand the block to the chain, which checks
the certificate before it stores the block. -/
def commit (stores : Bool) : Host :=
  match driver.assemble with
  | none => host
  | some (block, cert) =>
    let host := { host with assembled := host.assembled ++ [(block, cert)] }
    match setting.verifyBlockCertificate block cert with
    | .ok () => if stores then { host with driver := none, checks := [], stored := true } else host
    | .error _ => host

/-- What an event does to the node it happens at. -/
def change (address : Address) (order : IterOrder) (now : Nat) (host : Host) (event : DriverEvent) :
    Host :=
  match event, host.driver with
  | .begin able, none =>
    if host.stored then host
    else
      match Driver.build setting address able host.wal with
      | none => host
      | some driver => host.keep ((host.session driver).begin setting address order now)
  | .crash, _ => { host with driver := none, checks := [] }
  | _, none => host
  | .begin _, some _ => host
  | .advance able skips, some driver =>
    host.keep ((host.session driver).advance setting address order now able skips)
  | .proposal able message, some driver =>
    host.keep ((host.session driver).onProposal setting address order now able message)
  | .settle index timely, some driver =>
    match host.checks[index]? with
    | none => host
    | some check =>
      { host with checks := host.checks.eraseIdx index }.keep
        (({ host with checks := host.checks.eraseIdx index }.session driver).settle setting
          address order now check.value (timely && setting.validate check.block check.miners))
  | .vote message, some driver =>
    host.keep ((host.session driver).onVote setting address order now message)
  | .giveUp message, some driver =>
    host.keep ((host.session driver).onGiveUp setting message).1
  | .tick waited reachable, some driver =>
    host.keep ((host.session driver).tick setting address order now waited reachable).1
  | .propose block timely, some driver =>
    host.keep ((host.session driver).propose setting address order now block
      (timely && setting.validate block driver.miners))
  | .commit stores, some driver => host.commit setting driver stores

end Host

/-- An event at a node, with the time and the order in which its maps are read. -/
structure NetworkEvent where
  address : Address
  order : IterOrder
  now : Nat
  event : DriverEvent

def NetworkEvent.Allowed (setting : HeightSetting) (network : Network) (at' : NetworkEvent) :
    Prop :=
  at'.address ∉ setting.faulty ∧ (∀ number ∈ at'.event.numbers, number ≤ maxU32) ∧
    ∀ sig ∈ at'.event.sigs, network.Made setting sig

instance NetworkEvent.decidableAllowed (setting : HeightSetting) (network : Network)
    (at' : NetworkEvent) : Decidable (at'.Allowed setting network) := by
  unfold NetworkEvent.Allowed
  infer_instance

namespace Network

def step (setting : HeightSetting) (network : Network) (at' : NetworkEvent) : Network :=
  Function.update network at'.address
    ((network at'.address).change setting at'.address at'.order at'.now at'.event)

/-- The state after a list of events, if each was allowed when it happened. -/
def run (setting : HeightSetting) (network : Network) : List NetworkEvent → Option Network
  | [] => some network
  | at' :: rest =>
    if at'.Allowed setting network then (network.step setting at').run setting rest else none

end Network

end EgoChain.Consensus
