import EgoChain.Consensus.Messages

/-!
# Commit and give-up certificates

A committee that cannot finish a block gives it up, and a replacement committee
takes over with the lock that the give-ups report.  Attempts count the
committees of one height.  Up to `tmMaxAttempt` a replacement rests on the
certificates of all attempts before it; from there on it rests on the last one
alone, whose give-ups also pass on the lock their committee inherited.

The chain state enters through the committee of each attempt.  A member's key is
identified with its address.
-/

namespace EgoChain.Consensus

open EgoChain.Foundations (Text)

def quorumOf (n : Nat) : Nat := 2 * n / 3 + 1

def skipThresholdOf (n : Nat) : Nat := n - quorumOf n + 1

def tmCertVersion : Nat := 3
def tmCertV4 : Nat := 4
def tmMaxAttempt : Nat := 32
def tmExtendedFromHeight : Nat := 40572
def skipFromHeight : Nat := 39523

def extendedAttemptsAt (height : Nat) : Bool := tmExtendedFromHeight ≤ height

def compactSkip (attempt : Nat) : Bool := tmMaxAttempt ≤ attempt

/-- The lock of a committee member: a value and the prevotes behind it. -/
structure TmLock where
  round : Nat
  value : Text
  pol : List (Address × Signature)
  attempt : Option Nat
  deriving DecidableEq

structure TmSkipVote where
  voter : Address
  locked : Option TmLock
  sig : Signature
  deriving DecidableEq

structure TmSkipCert where
  attempt : Nat
  votes : List TmSkipVote
  deriving DecidableEq

structure TmCert where
  v : Nat
  round : Nat
  votes : List (Address × Signature)
  attempt : Nat := 0
  skips : List TmSkipCert := []
  deriving DecidableEq

/-- A block as far as consensus reads it; `contents` is everything else. -/
structure Block where
  height : Nat
  hash : Text
  prevHash : Text
  miner : Address
  contents : Text
  deriving DecidableEq

/-- Why a certificate is refused, with what the refusal names. -/
inductive CertError where
  | notOnCommittee (voter : Address) (attempt : Nat)
  | badGiveUp (voter : Address) (attempt : Nat)
  | laterLock (voter : Address) (lockAttempt : Nat)
  | noCommittee (attempt : Nat)
  | unbackedLock (voter : Address) (value : Text)
  | gaveUpTwice (voter : Address) (attempt : Nat)
  | fewGiveUps (attempt seen need : Nat)
  | tooManyCommittees (attempt : Nat)
  | notSingle (attempt : Nat)
  | notInForce
  | outOfOrder
  | wrongAttempt (attempt skips : Nat)
  | strangeMiner (miner : Address)
  | otherLock (locked hash : Text)
  | otherKind
  | countedTwice (voter : Address)
  | badVote (voter : Address)
  | fewVotes (seen need : Nat)
  deriving DecidableEq

def attemptOf (skips : List TmSkipCert) : Nat :=
  match skips.getLast? with
  | some cert => satAdd32 cert.attempt 1
  | none => 0

/-! ## Give-ups -/

namespace TmSkipVote

def lockAttempt (vote : TmSkipVote) (attempt : Nat) : Option Nat :=
  vote.locked.map fun lock => if compactSkip attempt then lock.attempt.getD attempt else attempt

/-- The message a give-up signs. -/
def message (vote : TmSkipVote) (height attempt : Nat) : Message :=
  if compactSkip attempt then
    tmSkipMessageV2 height attempt (vote.locked.map fun lock =>
      ((vote.lockAttempt attempt).getD attempt, lock.round, lock.value))
  else
    tmSkipMessage height attempt (vote.locked.map fun lock => (lock.round, lock.value))

end TmSkipVote

/-- The members of a committee whose prevotes for the lock are among its proofs. -/
def TmLock.backers (lock : TmLock) (height attempt : Nat) (backing : List Address) : List Address :=
  let message := tmVoteMessageAt attempt .prevote height lock.round (some lock.value)
  ((lock.pol.filter fun entry =>
    backing.any fun member => member = entry.1 && tmSignatureOk member message entry.2).map
      Prod.fst).dedup

namespace TmSkipVote

variable (vote : TmSkipVote) (height attempt : Nat) (committee : List Address)
  (earlier : Nat → Option (List Address))

def verifyLock (lock : TmLock) (lockAttempt : Nat) : Except CertError Unit :=
  if lockAttempt > attempt then .error (.laterLock vote.voter lockAttempt)
  else
    match if lockAttempt = attempt then some committee else earlier lockAttempt with
    | none => .error (.noCommittee lockAttempt)
    | some backing =>
      if (lock.backers height lockAttempt backing).length < quorumOf backing.length then
        .error (.unbackedLock vote.voter lock.value)
      else .ok ()

def verifyWith : Except CertError Unit :=
  if vote.voter ∉ committee then .error (.notOnCommittee vote.voter attempt)
  else if !tmSignatureOk vote.voter (vote.message height attempt) vote.sig then
    .error (.badGiveUp vote.voter attempt)
  else
    match vote.locked, vote.lockAttempt attempt with
    | some lock, some lockAttempt =>
      vote.verifyLock height attempt committee earlier lock lockAttempt
    | _, _ => .ok ()

end TmSkipVote

namespace TmSkipCert

/-- The better of the best lock so far and the one a give-up reports. -/
def better (attempt : Nat) (best : Option (Nat × TmLock)) (vote : TmSkipVote) : Option (Nat × TmLock) :=
  match vote.locked, vote.lockAttempt attempt with
  | some lock, some lockAttempt =>
    let rank := if compactSkip attempt then lockAttempt else 0
    if best.all fun old => old.1 < rank ∨ old.1 = rank ∧ old.2.round < lock.round then
      some (rank, if compactSkip attempt then { lock with attempt := some lockAttempt } else lock)
    else best
  | _, _ => best

def verifyVotes (height attempt : Nat) (committee : List Address)
    (earlier : Nat → Option (List Address)) :
    List TmSkipVote → List Address → Option (Nat × TmLock) →
      Except CertError (List Address × Option (Nat × TmLock))
  | [], seen, best => .ok (seen, best)
  | vote :: rest, seen, best =>
    match vote.verifyWith height attempt committee earlier with
    | .error refused => .error refused
    | .ok () =>
      if vote.voter ∈ seen then .error (.gaveUpTwice vote.voter attempt)
      else verifyVotes height attempt committee earlier rest (vote.voter :: seen)
        (better attempt best vote)

variable (cert : TmSkipCert) (height : Nat) (committee : List Address)

def verifyWith (earlier : Nat → Option (List Address)) : Except CertError (Option TmLock) :=
  match verifyVotes height cert.attempt committee earlier cert.votes [] none with
  | .error refused => .error refused
  | .ok (seen, best) =>
    if seen.length < skipThresholdOf committee.length then
      .error (.fewGiveUps cert.attempt seen.length (skipThresholdOf committee.length))
    else .ok (best.map Prod.snd)

def verify : Except CertError (Option TmLock) :=
  cert.verifyWith height committee fun _ => none

end TmSkipCert

def carriedLock (locks : List (Option TmLock)) : Option TmLock :=
  locks.reduceOption.getLast?

/-! ## Chains of replacements -/

/-- What the chain state says about one height. -/
structure HeightView where
  height : Nat
  committeeForAttempt : Nat → Option (List Address)

structure SkipChain where
  committee : List Address
  miners : List Address
  carried : Option TmLock
  deriving DecidableEq

namespace HeightView

def compactSkipChain (view : HeightView) (skips : List TmSkipCert) : Except CertError SkipChain :=
  let attempt := attemptOf skips
  if !extendedAttemptsAt view.height then .error (.tooManyCommittees attempt)
  else
    match skips with
    | [last] =>
      match view.committeeForAttempt last.attempt with
      | none => .error (.noCommittee last.attempt)
      | some previous =>
        match last.verifyWith view.height previous view.committeeForAttempt with
        | .error refused => .error refused
        | .ok carried =>
          match view.committeeForAttempt attempt with
          | none => .error (.noCommittee attempt)
          | some committee =>
            .ok {
              committee := committee
              miners := committee ++
                ((carried.bind TmLock.attempt).bind view.committeeForAttempt).getD []
              carried := carried }
    | _ => .error (.notSingle attempt)

/-- The miners and the locks of a list of certificates, the first of which is for the
given attempt. -/
def verifySkips (view : HeightView) : Nat → List TmSkipCert →
    Except CertError (List Address × List (Option TmLock))
  | _, [] => .ok ([], [])
  | attempt, skip :: rest =>
    if skip.attempt ≠ attempt then .error .outOfOrder
    else
      match view.committeeForAttempt attempt with
      | none => .error (.noCommittee attempt)
      | some committee =>
        match skip.verify view.height committee with
        | .error refused => .error refused
        | .ok lock =>
          match view.verifySkips (attempt + 1) rest with
          | .error refused => .error refused
          | .ok (miners, locks) =>
            .ok (committee ++ miners,
              lock.map (fun lock => { lock with attempt := some skip.attempt }) :: locks)

def skipChain (view : HeightView) (skips : List TmSkipCert) : Except CertError SkipChain :=
  let attempt := attemptOf skips
  if attempt > tmMaxAttempt then view.compactSkipChain skips
  else if attempt > 0 ∧ view.height < skipFromHeight then .error .notInForce
  else
    match view.verifySkips 0 skips with
    | .error refused => .error refused
    | .ok (miners, locks) =>
      match view.committeeForAttempt attempt with
      | none => .error (.noCommittee attempt)
      | some committee =>
        .ok { committee := committee, miners := miners ++ committee,
              carried := carriedLock locks }

end HeightView

/-! ## Commit certificates -/

namespace TmCert

def countVotes (committee : List Address) (message : Message) :
    List (Address × Signature) → List Address → Except CertError (List Address)
  | [], seen => .ok seen
  | (voter, sig) :: rest, seen =>
    if voter ∉ committee then .error (.notOnCommittee voter 0)
    else if voter ∈ seen then .error (.countedTwice voter)
    else if !tmSignatureOk voter message sig then .error (.badVote voter)
    else countVotes committee message rest (voter :: seen)

def verifyVotes (cert : TmCert) (committee : List Address) (message : Message) :
    Except CertError Unit :=
  match countVotes committee message cert.votes [] with
  | .error refused => .error refused
  | .ok seen =>
    if seen.length < quorumOf committee.length then
      .error (.fewVotes seen.length (quorumOf committee.length))
    else .ok ()

def verify (cert : TmCert) (block : Block) (committee : List Address) : Except CertError Unit :=
  if cert.v ≠ tmCertVersion ∨ cert.attempt ≠ 0 ∨ cert.skips ≠ [] then .error .otherKind
  else if block.miner ∉ committee then .error (.strangeMiner block.miner)
  else cert.verifyVotes committee
    (tmVoteMessageAt 0 .precommit block.height cert.round (some block.hash))

end TmCert

namespace HeightView

variable (view : HeightView) (block : Block) (cert : TmCert)

def verifyReplacementCert : Except CertError Unit :=
  if cert.attempt = 0 ∨ attemptOf cert.skips ≠ cert.attempt then
    .error (.wrongAttempt cert.attempt cert.skips.length)
  else
    match view.skipChain cert.skips with
    | .error refused => .error refused
    | .ok chain =>
      if block.miner ∉ chain.miners then .error (.strangeMiner block.miner)
      else
        match chain.carried.filter fun lock => lock.value ≠ block.hash with
        | some lock => .error (.otherLock lock.value block.hash)
        | none => cert.verifyVotes chain.committee
            (tmVoteMessageAt cert.attempt .precommit block.height cert.round (some block.hash))

/-- `verify_block_certificate_in` at a height where the committees vote in this way. -/
def verifyBlockCertificate : Except CertError Unit :=
  match view.committeeForAttempt 0 with
  | none => .error (.noCommittee 0)
  | some committee =>
    if cert.v = tmCertV4 then view.verifyReplacementCert block cert
    else cert.verify block committee

end HeightView

end EgoChain.Consensus
