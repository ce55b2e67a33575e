import EgoChain.Foundations.KeyedMap

/-!
# The Tendermint engine

One committee member's voting engine for one height, as a function on an
explicit state.  Every public call returns the next state together with the
actions it asks its driver to carry out.  Rounds and clocks are natural numbers
with the saturating additions of the 32- and 64-bit originals.

A `HashMap` yields its keys in no fixed order, and the tally in
`value_with_quorum` is read in that order.  The choice is an argument of every
call, so a statement about the engine holds for whatever order the map picks.
-/

namespace EgoChain.Consensus

open EgoChain.Foundations

abbrev ValueId := Vector UInt8 32

def roundWindow : Nat := 64
def valuesPerVoter : Nat := 4

def maxU32 : Nat := 2 ^ 32 - 1
def maxU64 : Nat := 2 ^ 64 - 1

def satAdd32 (a b : Nat) : Nat := min (a + b) maxU32
def satAdd64 (a b : Nat) : Nat := min (a + b) maxU64
def satMul64 (a b : Nat) : Nat := min (a * b) maxU64

inductive Step where
  | propose
  | prevote
  | precommit
  deriving DecidableEq, Repr

inductive VoteKind where
  | prevote
  | precommit
  deriving DecidableEq, Repr

inductive Timer where
  | propose
  | prevote
  | precommit
  deriving DecidableEq, Repr

inductive Action where
  | propose (round : Nat) (polRound : Option Nat) (value : Option ValueId)
  | vote (kind : VoteKind) (round : Nat) (value : Option ValueId)
  | decide (round : Nat) (value : ValueId)
  deriving DecidableEq, Repr

structure Timeouts where
  firstProposeMs : Nat := 15000
  proposeMs : Nat := 6000
  prevoteMs : Nat := 3000
  precommitMs : Nat := 3000
  perRoundMs : Nat := 1000
  capMs : Nat := 60000
  deriving DecidableEq, Repr

def Timeouts.of (timeouts : Timeouts) (timer : Timer) (round : Nat) : Nat :=
  let base := match timer with
    | .propose => if round = 0 then timeouts.firstProposeMs else timeouts.proposeMs
    | .prevote => timeouts.prevoteMs
    | .precommit => timeouts.precommitMs
  min (satAdd64 base (satMul64 timeouts.perRoundMs round)) (max timeouts.capMs base)

/-- What a member writes to disk before it releases a vote. -/
structure Saved where
  height : Nat
  round : Nat
  step : Step
  locked : Option (Nat × ValueId)
  valid : Option (Nat × ValueId)
  sent : List (Nat × VoteKind × Option ValueId)
  deriving DecidableEq, Repr

def quorum (n : Nat) : Nat := 2 * n / 3 + 1

def skipThreshold (n : Nat) : Nat := n - quorum n + 1

/-- The values one voter is on record with, for one round and one kind of vote. -/
structure Ballot where
  values : List (Option ValueId)
  nodup : values.Nodup

def Ballot.empty : Ballot := ⟨[], List.nodup_nil⟩

def Ballot.push (ballot : Ballot) (value : Option ValueId) : Ballot :=
  if absent : value ∉ ballot.values then
    if ballot.values.length < valuesPerVoter then
      ⟨ballot.values ++ [value], by
        rw [List.nodup_append]
        refine ⟨ballot.nodup, List.nodup_singleton value, ?_⟩
        intro old oldMem new newMem same
        rw [List.mem_singleton] at newMem
        exact absent (newMem ▸ same ▸ oldMem)⟩
    else ballot
  else ballot

abbrev Book := KeyedMap Nat (KeyedMap Nat Ballot)

def record (book : Book) (round voter : Nat) (value : Option ValueId) : Book :=
  let voters := (book.lookup round).getD ∅
  let ballot := (voters.lookup voter).getD Ballot.empty
  book.insert round (voters.insert voter (ballot.push value))

/-- The members on record for a round whose ballot holds the value. -/
def votersIn (book : Book) (round : Nat) (value : Option ValueId) : List Nat :=
  match book.lookup round with
  | none => []
  | some voters =>
    (voters.entries.filter fun entry => value ∈ entry.2.values).map Sigma.fst

structure Tendermint where
  height : Nat
  n : Nat
  me : Option Nat
  timeouts : Timeouts
  round : Nat
  step : Step
  locked : Option (Nat × ValueId)
  valid : Option (Nat × ValueId)
  proposals : KeyedMap Nat (ValueId × Option Nat)
  validity : KeyedMap ValueId Bool
  prevotes : Book
  precommits : Book
  highest : KeyedMap Nat Nat
  sent : KeyedMap (Nat × VoteKind) (Option ValueId)
  timers : List (Timer × Nat × Nat)
  armed : List (Timer × Nat)
  polkaDone : List Nat
  decision : Option (Nat × ValueId)
  started : Bool
  resumed : Bool
  carried : Option ValueId

/-- The order in which a fresh `HashMap` yields the given keys. -/
structure IterOrder where
  run : Tendermint → VoteKind → Nat → List ValueId → List ValueId
  perm : ∀ engine kind round values, (run engine kind round values).Perm values

def IterOrder.inserted : IterOrder := ⟨fun _ _ _ values => values, fun _ _ _ _ => List.Perm.refl _⟩

namespace Tendermint

def new (height n : Nat) (me : Option Nat) (timeouts : Timeouts) : Tendermint where
  height := height
  n := n
  me := me.filter (· < n)
  timeouts := timeouts
  round := 0
  step := .propose
  locked := none
  valid := none
  proposals := ∅
  validity := ∅
  prevotes := ∅
  precommits := ∅
  highest := ∅
  sent := ∅
  timers := []
  armed := []
  polkaDone := []
  decision := none
  started := false
  resumed := false
  carried := none

variable (voters : KeyedMap Nat Ballot) (order : IterOrder) (now : Nat) (engine : Tendermint)
  (value : ValueId)

def carry : Tendermint :=
  if engine.started then engine else { engine with carried := some value }

def book : VoteKind → Book
  | .prevote => engine.prevotes
  | .precommit => engine.precommits

/-- `record(self.book_mut(kind), ..)`. -/
def recordVote (kind : VoteKind) (round voter : Nat) (value : Option ValueId) : Tendermint :=
  match kind with
  | .prevote => { engine with prevotes := record engine.prevotes round voter value }
  | .precommit => { engine with precommits := record engine.precommits round voter value }

def restoreVote (vote : Nat × VoteKind × Option ValueId) : Tendermint :=
  let engine := { engine with sent := engine.sent.insert (vote.1, vote.2.1) vote.2.2 }
  match engine.me with
  | some me => engine.recordVote vote.2.1 vote.1 me vote.2.2
  | none => engine

def restore (saved : Saved) : Tendermint :=
  if saved.height ≠ engine.height ∨ engine.started then engine
  else
    let engine := { engine with
      round := saved.round
      step := saved.step
      locked := saved.locked
      valid := saved.valid }
    { saved.sent.foldl restoreVote engine with resumed := true }

def voteRank : VoteKind → Nat
  | .prevote => 0
  | .precommit => 1

def saved : Saved where
  height := engine.height
  round := engine.round
  step := engine.step
  locked := engine.locked
  valid := engine.valid
  sent := (engine.sent.entries.map fun vote => (vote.1.1, vote.1.2, vote.2)).insertionSort
    fun a b => a.1 < b.1 ∨ a.1 = b.1 ∧ voteRank a.2.1 ≤ voteRank b.2.1

def proposer (round : Nat) : Nat :=
  if engine.n = 0 then 0 else (engine.height + round) % 2 ^ 64 % engine.n

def noteRound (voter round : Nat) : Tendermint :=
  match engine.highest.lookup voter with
  | none => { engine with highest := engine.highest.insert voter round }
  | some old =>
    if round > old then { engine with highest := engine.highest.insert voter round }
    else engine

variable (kind : VoteKind) (round : Nat)

def votersFor (value : Option ValueId) : List Nat :=
  votersIn (engine.book kind) round value

def count (value : Option ValueId) : Nat :=
  (engine.votersFor kind round value).length

def countAny : Nat :=
  match (engine.book kind).lookup round with
  | none => 0
  | some voters => voters.entries.length

def tally : Nat :=
  (voters.entries.map fun entry => entry.2.values.count (some value)).sum

/-- The keys of the tally map: every value some ballot names. -/
def tallied : List ValueId :=
  (voters.entries.flatMap fun entry => entry.2.values.reduceOption).dedup

def valueWithQuorum (engine : Tendermint) (kind : VoteKind) (round : Nat) : Option ValueId :=
  match (engine.book kind).lookup round with
  | none => none
  | some voters =>
    (order.run engine kind round (tallied voters)).find? fun value =>
      quorum engine.n ≤ tally voters value

/-- The validity verdict is in and positive, and no other value is carried. -/
def acceptable (engine : Tendermint) (value : ValueId) : Bool :=
  engine.validity.lookup value = some true && engine.carried.all (· = value)

def findDecision (engine : Tendermint) : Option (Nat × ValueId) :=
  (engine.precommits.keys.insertionSort (· ≤ ·)).findSome? fun round =>
    match engine.valueWithQuorum order .precommit round with
    | some value => if engine.acceptable value then some (round, value) else none
    | none => none

def skipTarget (engine : Tendermint) : Option Nat :=
  let rounds := (engine.highest.entries.filter fun entry => some entry.1 ≠ engine.me).map Sigma.snd
  match (rounds.insertionSort (· ≥ ·))[skipThreshold engine.n - 1]? with
  | some target => if target > engine.round then some target else none
  | none => none

def arm (engine : Tendermint) (timer : Timer) (round now : Nat) : Tendermint :=
  if (timer, round) ∈ engine.armed then engine
  else { engine with
    armed := (timer, round) :: engine.armed
    timers := engine.timers ++ [(timer, round, satAdd64 now (engine.timeouts.of timer round))] }

def startRound (engine : Tendermint) (now round : Nat) : Tendermint × List Action :=
  let engine := { engine with round := round, step := .propose }
  let out :=
    if some (engine.proposer round) = engine.me ∧ (round, VoteKind.prevote) ∉ engine.sent then
      [Action.propose round (engine.valid.map Prod.fst) ((engine.valid.map Prod.snd).or engine.carried)]
    else []
  (engine.arm .propose round now, out)

def cast (engine : Tendermint) (kind : VoteKind) (value : Option ValueId) : Tendermint × List Action :=
  match engine.me with
  | none => (engine, [])
  | some me =>
    if (engine.round, kind) ∈ engine.sent then (engine, [])
    else
      let voted := { engine with sent := engine.sent.insert (engine.round, kind) value }
      (voted.recordVote kind engine.round me value, [.vote kind engine.round value])

/-- Take note of a decision, if the precommits on record contain one. -/
def settle (engine : Tendermint) : Tendermint × List Action :=
  match engine.decision, engine.findDecision order with
  | none, some found => ({ engine with decision := some found, timers := [] },
      [.decide found.1 found.2])
  | _, _ => (engine, [])

/-- The prevote a proposal earns in its own round, once it can be judged. -/
def verdict (engine : Tendermint) : Option (Option ValueId) :=
  match engine.proposals.lookup engine.round with
  | none => none
  | some (value, pol) =>
    match engine.validity.lookup value with
    | none => none
    | some ok =>
      let ok := ok && engine.carried.all (· = value)
      match pol with
      | none =>
        let free := engine.locked.all fun lock => lock.2 = value
        some (if ok && free then some value else none)
      | some validRound =>
        if engine.count .prevote validRound (some value) ≥ quorum engine.n then
          let free := engine.locked.all fun lock => lock.1 ≤ validRound ∨ lock.2 = value
          some (if ok && free then some value else none)
        else none

/-- A polka of the current round that the engine has not acted on yet. -/
def freshPolka (engine : Tendermint) : Option ValueId :=
  if engine.step ≠ .propose ∧ engine.round ∉ engine.polkaDone then
    match engine.valueWithQuorum order .prevote engine.round with
    | some value => if engine.acceptable value then some value else none
    | none => none
  else none

/-- Cast a vote of the current round and move to the given step. -/
def castAnd (engine : Tendermint) (kind : VoteKind) (value : Option ValueId)
    (next : Step) : Tendermint × List Action :=
  let (engine, out) := engine.cast kind value
  ({ engine with step := next }, out)

/-- Lock and precommit on a polka while prevoting; otherwise only remember it. -/
def takePolka (engine : Tendermint) (value : ValueId) : Tendermint × List Action :=
  let engine := { engine with polkaDone := engine.round :: engine.polkaDone }
  let (engine, out) :=
    if engine.step = .prevote then
      { engine with locked := some (engine.round, value) }.castAnd .precommit (some value) .precommit
    else (engine, [])
  ({ engine with valid := some (engine.round, value) }, out)

def armIf (engine : Tendermint) (test : Bool) (timer : Timer) (now : Nat) : Tendermint :=
  if test then engine.arm timer engine.round now else engine

/-- The body of the loop in `progress` below the check for a decision; the flag
says whether the loop continues. -/
def advance (order : IterOrder) (now : Nat) (engine : Tendermint) : Bool × Tendermint × List Action :=
  match engine.skipTarget with
  | some round => (true, engine.startRound now round)
  | none =>
    match if engine.step = .propose then engine.verdict else none with
    | some value => (true, engine.castAnd .prevote value .prevote)
    | none =>
      let q := quorum engine.n
      let engine := engine.armIf
        (engine.step = .prevote ∧ engine.countAny .prevote engine.round ≥ q) .prevote now
      match engine.freshPolka order with
      | some value => (true, engine.takePolka value)
      | none =>
        if engine.step = .prevote ∧ engine.count .prevote engine.round none ≥ q then
          (true, engine.castAnd .precommit none .precommit)
        else
          (false, engine.armIf (engine.countAny .precommit engine.round ≥ q) .precommit now, [])

def idle (engine : Tendermint) : Bool :=
  engine.decision.isSome || engine.me.isNone || !engine.started || engine.n = 0

def progressOnce (engine : Tendermint) : Bool × Tendermint × List Action :=
  let (engine, decided) := engine.settle order
  if engine.idle then (false, engine, decided)
  else
    let (more, engine, out) := engine.advance order now
    (more, engine, decided ++ out)

def highestHeard (engine : Tendermint) : Nat :=
  (engine.highest.entries.map Sigma.snd).foldr max 0

def stepRank : Step → Nat
  | .propose => 2
  | .prevote => 1
  | .precommit => 0

/-- Every turn of the loop that continues lowers this number. -/
def workLeft (engine : Tendermint) : Nat :=
  6 * (engine.highestHeard - engine.round) + 2 * stepRank engine.step +
    if engine.round ∈ engine.polkaDone then 0 else 1

def progressLoop (order : IterOrder) (now : Nat) : Nat → Tendermint → Tendermint × List Action
  | 0, engine => (engine, [])
  | fuel + 1, engine =>
    match engine.progressOnce order now with
    | (false, engine, out) => (engine, out)
    | (true, engine, out) =>
      let (engine, later) := progressLoop order now fuel engine
      (engine, out ++ later)

def progress (engine : Tendermint) : Tendermint × List Action :=
  progressLoop order now (engine.workLeft + 1) engine

def start (engine : Tendermint) : Tendermint × List Action :=
  if engine.started then (engine, [])
  else
    let engine := { engine with started := true }
    let (engine, out) :=
      if engine.me.isSome ∧ engine.n > 0 then
        match engine.resumed, engine.step with
        | false, _ | true, .propose => engine.startRound now engine.round
        | true, .prevote => (engine.arm .prevote engine.round now, [])
        | true, .precommit => (engine.arm .precommit engine.round now, [])
      else (engine, [])
    let (engine, later) := engine.progress order now
    (engine, out ++ later)

def onProposal (order : IterOrder) (now round sender : Nat) (value : ValueId)
    (polRound : Option Nat) (valid : Bool) (engine : Tendermint) : Tendermint × List Action :=
  let engine :=
    if sender < engine.n ∧ sender = engine.proposer round ∧ polRound.all (· < round) ∧
        round ≤ satAdd32 engine.round roundWindow then
      { engine with
        proposals := engine.proposals.orInsert round (value, polRound)
        validity := engine.validity.orInsert value valid }.noteRound sender round
    else engine
  engine.progress order now

def onValue (valid : Bool) (engine : Tendermint) : Tendermint × List Action :=
  { engine with validity := engine.validity.orInsert value valid }.progress order now

def onVote (order : IterOrder) (now : Nat) (kind : VoteKind) (round voter : Nat)
    (value : Option ValueId) (engine : Tendermint) : Tendermint × List Action :=
  let engine :=
    if voter < engine.n ∧ some voter ≠ engine.me then
      let engine := engine.noteRound voter round
      if round ≤ satAdd32 engine.round roundWindow then
        engine.recordVote kind round voter value
      else engine
    else engine
  engine.progress order now

/-- What one due timer does before `progress` runs. -/
def fire (engine : Tendermint) (now : Nat) (timer : Timer) (round : Nat) : Tendermint × List Action :=
  match timer with
  | .propose =>
    if engine.round = round ∧ engine.step = .propose then
      engine.castAnd .prevote none .prevote
    else (engine, [])
  | .prevote =>
    if engine.round = round ∧ engine.step = .prevote then
      engine.castAnd .precommit none .precommit
    else (engine, [])
  | .precommit =>
    if engine.round = round then engine.startRound now (satAdd32 round 1)
    else (engine, [])

def fireAll (order : IterOrder) (now : Nat) :
    List (Timer × Nat × Nat) → Tendermint → Tendermint × List Action
  | [], engine => (engine, [])
  | (timer, round, _) :: rest, engine =>
    if engine.decision.isSome then (engine, [])
    else
      let (engine, first) := engine.fire now timer round
      let (engine, second) := engine.progress order now
      let (engine, third) := fireAll order now rest engine
      (engine, first ++ second ++ third)

def tick (engine : Tendermint) : Tendermint × List Action :=
  let due := (engine.timers.filter fun timer => timer.2.2 ≤ now).insertionSort
    fun a b => a.2.2 < b.2.2 ∨ a.2.2 = b.2.2 ∧ a.2.1 ≤ b.2.1
  let engine := { engine with timers := engine.timers.filter fun timer => ¬ timer.2.2 ≤ now }
  let (engine, out) := engine.fireAll order now due
  let (engine, later) := engine.progress order now
  (engine, out ++ later)

end Tendermint

end EgoChain.Consensus
