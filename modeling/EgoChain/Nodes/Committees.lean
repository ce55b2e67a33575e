import EgoChain.Consensus.Certificates
import EgoChain.Foundations.Draws
import EgoChain.Nodes.Records

/-!
# Drawing a committee

A committee is drawn from a pool by weight, one member after the other, and seated
so that the first member drawn proposes in the first round.  The first draw leaves
out the makers of the last blocks.  When a height stays undecided, later attempts
widen the committee with nodes from outside.
-/

namespace EgoChain.Nodes

open EgoChain.Foundations

/-! ## Seats and proposers -/

/-- The seat of the member drawn in turn `k`; the sum is one of machine words. -/
def seatOf (height size k : Nat) : Nat := (height + k) % 2 ^ 64 % size

def seatInTurn (height : Nat) (order : List Text) : List Text :=
  seatAll (seatOf height order.length) [] order

def proposerOf (group : List Text) (height round : Nat) : Option Text :=
  if group.isEmpty then none else group[(height + round) % 2 ^ 64 % group.length]?

/-! ## Draws by weight -/

/-- The candidate whose share of the lots the number falls into. -/
def pickIndex : List (Text × Nat) → Nat → Option Nat
  | [], _ => none
  | (_, lots) :: rest, r => if r < lots then some 0 else (pickIndex rest (r - lots)).map (· + 1)

def weightedPick (candidates : List (Text × Nat)) (r : Nat) : Nat :=
  let total := (candidates.map Prod.snd).sum
  (pickIndex candidates (r % max total 1)).getD (candidates.length - 1)

variable (state : NodeState) (env : NodeEnv) (base height pool : Nat) (attempt : Int) (seed : Text)
  (recent : List Text) (pick : Nat) (remaining : List (Text × Nat))

/-- The places of the candidates that made none of the last blocks. -/
def restedPlaces : List Nat :=
  (remaining.zipIdx.filter fun entry => entry.1.1 ∉ recent).map Prod.snd

def firstPick (r : Nat) : Nat :=
  let rested := restedPlaces recent remaining
  if rested.isEmpty then weightedPick remaining r
  else
    let candidates := rested.filterMap fun place => remaining[place]?
    rested.getD (weightedPick candidates r) 0

def blockCommittee : Nat := 4
def wideCommittee : Nat := 8
def widePoolMin : Nat := 16

def committeeSize : Nat :=
  min (if wideCommitteeFromHeight ≤ height ∧ widePoolMin ≤ pool then wideCommittee
    else blockCommittee) pool

/-- The first sixteen bytes of a hash, as a number. -/
def hashNumber (bytes : Text) : Nat := leNat ((env.blake3 bytes).take 16)

/-- `attempt.to_le_bytes()` of a signed attempt. -/
def attemptBytes : Text := leBytes 8 (attempt % 2 ^ 64).toNat

def drawHash (height : Nat) (attempt : Int) (pick : Nat) : Nat :=
  hashNumber env (utf8 "ego/committee-draw/v3:" ++ seed ++ leBytes 8 height ++
    attemptBytes attempt ++ leBytes 8 pick)

/-- The pool with the lots of its nodes. -/
def withLots (pool : List Text) : List (Text × Nat) :=
  pool.map fun addr => (addr, state.lots (periodOf height) addr)

/-- The makers that do not propose in the first round. -/
def recentMakers : List Text :=
  state.lastMakers.take (makerCooldown pool)

def chooseSeat : Nat :=
  let r := drawHash env seed height attempt pick
  if pick = 0 then firstPick recent remaining r else weightedPick remaining r

variable (env : NodeEnv) (state : NodeState) (height : Nat) (attempt : Int) (seed : Text)
  (pool : List Text)

/-- The committee in the order of the draw. -/
def drawOrder : List Text :=
  (drawOut (chooseSeat env height attempt seed (recentMakers state pool.length)) 0
    (committeeSize height pool.length) (withLots state height pool)).map Prod.fst

def weightedCommittee : List Text :=
  seatInTurn height (drawOrder env state height attempt seed pool)

/-! ## Wider committees -/

def widenFromAttempt : Nat := 2
def widenAnchoredAttempts : Nat := 32
def widenV2AnchoredAttempts : Nat := 8
def liveSeatEpochs : Nat := 3
def widenReadyEpochs : Nat := 8
def widenMaxOutsiders : Nat := 512

variable (env : NodeEnv) (state : NodeState) (addr : Text) (height attempt : Nat)

def widened : Bool :=
  widenFromHeight ≤ height && widenFromAttempt ≤ attempt

def anchoredAttempts : Nat :=
  if widenV2FromHeight ≤ height then widenV2AnchoredAttempts else widenAnchoredAttempts

def anchored : Bool :=
  attempt - widenFromAttempt < anchoredAttempts height

def extraSeats : Nat :=
  let minority := (base - 1) / 2
  max (3 * minority + 1 - base) 1

def toleratesMinority : Bool :=
  let minority := (base - 1) / 2
  Consensus.quorumOf base ≤ base - minority

def extraSeatsAt (base : Nat) : Nat :=
  if widenV2FromHeight ≤ height ∧ toleratesMinority base = true then 0 else extraSeats base

/-- `genesis::dilithium_pubkey_for`. -/
def dilithiumPubkeyFor : Option Text :=
  ((env.genesis.find? fun validator => validator.address = addr).bind fun validator =>
    validator.dilithiumPubkey.fromHex).filter fun key => !key.isEmpty

def canVote : Bool :=
  (dilithiumPubkeyFor env addr).isSome || (state.dilithium.lookup addr).any fun key => !key.isEmpty

/-- The epochs the given number of steps back; there is none before the first. -/
def epochsBack (epoch : Nat) (steps : List Nat) : List Nat :=
  steps.filterMap fun back => if back ≤ epoch then some (epoch - back) else none

def recentlyLive : List Text :=
  state.lastMakers ++
    (epochsBack (epochOf height) (List.range' 0 (liveSeatEpochs + 1))).flatMap state.tmReadyIn

/-- Collect the candidates that can vote, each once and none that was seen before. -/
def gatherOutsiders (votes : Text → Bool) : List Text → List Text → List Text → List Text
  | [], _, out => out
  | addr :: rest, seen, out =>
    if widenMaxOutsiders ≤ out.length then out
    else if addr ∈ seen then gatherOutsiders votes rest seen out
    else if votes addr then gatherOutsiders votes rest (addr :: seen) (out ++ [addr])
    else gatherOutsiders votes rest (addr :: seen) out

variable (env : NodeEnv) (seed : Text) (state : NodeState) (height attempt : Nat) (inside : List Text)

def anyOutsiders : List Text :=
  let epoch := epochOf height
  let earlier := (epochsBack epoch (List.range' 1 widenReadyEpochs)).flatMap state.tmReadyIn
  let rota := ((state.loadRota epoch).map Rota.members).getD []
  gatherOutsiders (canVote env state) (earlier ++ state.lastMakers ++ rota) inside []

def outsiders : List Text :=
  let all := anyOutsiders env state height inside
  if height < liveSeatsFromHeight then all
  else
    let kept := all.filter fun addr => addr ∈ recentlyLive state height
    if kept.isEmpty ∨ inside.length + kept.length < minCommittee then all else kept

def widenHash (pick : Nat) : Nat :=
  hashNumber env (utf8 "ego/committee-widen/v1:" ++ seed ++ leBytes 8 height ++ leBytes 4 attempt ++
    leBytes 8 pick)

def drawFrom (seed : Text) (candidates : List Text) (count : Nat) : List Text :=
  (drawOut (fun pick remaining => weightedPick remaining (widenHash env seed height attempt pick)) 0
    count (withLots state height candidates)).map Prod.fst

def widenedCommittee (seed : Text) (pool base : List Text) : List Text :=
  if anchored height attempt then
    let seats := extraSeatsAt height base.length
    if seats = 0 then base
    else
      let extra := drawFrom env state height attempt seed (outsiders env state height base) seats
      if extra.isEmpty then base else seatInTurn height (base ++ extra)
  else
    let everyone := pool ++ outsiders env state height pool
    let fresh := drawFrom env state height attempt seed everyone minCommittee
    if fresh.length < minCommittee then base else seatInTurn height fresh

/-! ## Committees -/

/-- The rank of a node in the draws before weights counted. -/
def rankHash (attempt : Int) (addr : Text) : Text :=
  env.blake3 ((if drawV2FromHeight ≤ height then
      utf8 "ego/committee-draw/v2:" ++ seed ++ leBytes 8 height
    else utf8 "ego/committee-redraw/v1:" ++ seed ++ leBytes 8 (epochOf height)) ++
    attemptBytes attempt ++ addr)

def rankBefore (first second : Text × Text) : Bool :=
  first.1 < second.1 || (first.1 = second.1 && first.2 ≤ second.2)

def committee (env : NodeEnv) (state : NodeState) (height : Nat) (attempt : Int) : List Text :=
  let rota := (state.loadRota (epochOf height)).getD {}
  let pool := state.drawPool height
  if drawV3FromHeight ≤ height then weightedCommittee env state height attempt rota.seed pool
  else
    let size := min blockCommittee pool.length
    if pool.length ≤ size then pool
    else if height < drawV2FromHeight ∧ attempt ≤ 0 then pool.take size
    else
      let ranked := pool.map fun addr => (rankHash env rota.seed height attempt addr, addr)
      ((ranked.mergeSort rankBefore).take size).map Prod.snd

/-- The pool of an attempt to skip: the makers of the last blocks, if there are enough. -/
def skipPool : List Text :=
  let full := state.drawPool height
  let answering := full.filter fun addr => addr ∈ state.lastMakers
  if minCommittee ≤ answering.length then answering else full

variable (env : NodeEnv) (state : NodeState)

/-- The committee of an attempt to skip before it is widened. -/
def skipBase (height attempt : Nat) : List Text :=
  weightedCommittee env state height attempt ((state.loadRota (epochOf height)).getD {}).seed
    (skipPool state height)

def skipCommittee (height attempt : Nat) : List Text :=
  let base := skipBase env state height attempt
  if widened height attempt = false ∨ base.isEmpty then base
  else
    widenedCommittee env state height attempt ((state.loadRota (epochOf height)).getD {}).seed
      (state.drawPool height) base

end EgoChain.Nodes
