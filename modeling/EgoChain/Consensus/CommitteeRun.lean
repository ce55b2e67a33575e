import EgoChain.Consensus.EngineRestart

/-!
# Runs of a committee

The engines of the correct members and of any number of observers, in any
interleaving of calls, releases and crashes.  A node carries out what its engine
asks for in order, one action at a time, and writes the state after the call
that produced a vote to disk before the vote leaves.  A crash of a member drops
what has not left yet and rebuilds the engine from the disk.  (A restarted
observer is one more observer.)

Faulty members take no step of their own.  Their votes and proposals may reach
any node at any time, and a correct member's messages may reach any node any
number of times once they have left.
-/

namespace EgoChain.Consensus

open EgoChain.Foundations.LockVoting (Committee Votes Polka Commit Disciplined)

/-- The height, the committee and the value all its engines are bound to, if any. -/
structure Setting where
  height : Nat
  n : Nat
  faulty : Finset Nat
  few : faulty.card ≤ n - quorum n
  carried : Option ValueId

theorem none_few : (∅ : Finset Nat).card ≤ 1 - quorum 1 := by decide

def Setting.committee (setting : Setting) : Committee Nat :=
  committeeOf setting.n setting.faulty setting.few

inductive Node where
  | member (seat : Nat)
  | observer (label : Nat)
  deriving DecidableEq, Repr

def Node.me : Node → Option Nat
  | .member seat => some seat
  | .observer _ => none

variable (engine : Tendermint) (setting : Setting) (system : System)

def Setting.Correct : Node → Prop
  | .member seat => seat < setting.n ∧ seat ∉ setting.faulty
  | .observer _ => True

instance (setting : Setting) (node : Node) : Decidable (setting.Correct node) := by
  cases node <;> unfold Setting.Correct <;> infer_instance

/-- A call of the engine's public interface. -/
inductive Call where
  | start
  | onProposal (round sender : Nat) (value : ValueId) (polRound : Option Nat) (valid : Bool)
  | onValue (value : ValueId) (valid : Bool)
  | onVote (kind : VoteKind) (round voter : Nat) (value : Option ValueId)
  | tick

def Call.run (order : IterOrder) (now : Nat) (engine : Tendermint) : Call → Tendermint × List Action
  | .start => engine.start order now
  | .onProposal round sender value polRound valid =>
    engine.onProposal order now round sender value polRound valid
  | .onValue value valid => engine.onValue order now value valid
  | .onVote kind round voter value => engine.onVote order now kind round voter value
  | .tick => engine.tick order now

/-- What a call takes down before the loop of the engine runs. -/
def Call.heard : Call → Tendermint
  | .onProposal round sender value polRound valid =>
    if sender < engine.n ∧ sender = engine.proposer round ∧ polRound.all (· < round) ∧
        round ≤ satAdd32 engine.round roundWindow then
      { engine with
        proposals := engine.proposals.orInsert round (value, polRound)
        validity := engine.validity.orInsert value valid }.noteRound sender round
    else engine
  | .onValue value valid => { engine with validity := engine.validity.orInsert value valid }
  | .onVote kind round voter value =>
    if voter < engine.n ∧ some voter ≠ engine.me then
      let engine := engine.noteRound voter round
      if round ≤ satAdd32 engine.round roundWindow then engine.recordVote kind round voter value
      else engine
    else engine
  | _ => engine

/-- The call hands over a message that the member sent in the round. -/
def Call.From (member round : Nat) : Call → Prop
  | .onProposal spoken sender _ _ _ => member = sender ∧ round = spoken
  | .onVote _ spoken voter _ => member = voter ∧ round = spoken
  | _ => False

/-- Taking down what a call tells touches only the books and the table of highest rounds. -/
theorem Call.heard_eq (made : Call) : ∃ proposals validity highest prevotes precommits,
      made.heard engine = { engine with proposals, validity, highest, prevotes, precommits } ∧
      ∀ member round, highest.lookup member = some round →
        (made.From member round ∧ member < engine.n) ∨ engine.highest.lookup member = some round := by
  cases made with
  | start | tick | onValue => exact ⟨_, _, _, _, _, rfl, fun _ _ => Or.inr⟩
  | onProposal round sender value polRound valid =>
    unfold heard
    dsimp only
    split
    case isFalse => exact ⟨_, _, _, _, _, rfl, fun _ _ => Or.inr⟩
    case isTrue taken =>
    obtain ⟨highest, noted, new⟩ := Tendermint.noteRound_eq { engine with
      proposals := engine.proposals.orInsert round _
      validity := engine.validity.orInsert value valid } sender round
    exact ⟨_, _, _, _, _, noted, fun member spoken found =>
      (new member spoken found).imp_left fun told => ⟨told, told.1 ▸ taken.1⟩⟩
  | onVote kind round voter value =>
    unfold heard
    dsimp only
    split
    case isFalse => exact ⟨_, _, _, _, _, rfl, fun _ _ => Or.inr⟩
    case isTrue counted =>
    obtain ⟨highest, noted, new⟩ := Tendermint.noteRound_eq engine voter round
    have told : ∀ member spoken, highest.lookup member = some spoken →
        (Call.From member spoken (.onVote kind round voter value) ∧ member < engine.n) ∨
          engine.highest.lookup member = some spoken := fun member spoken found =>
      (new member spoken found).imp_left fun told => ⟨told, told.1 ▸ counted.1⟩
    obtain ⟨prevotes, precommits, recorded⟩ :=
      Tendermint.recordVote_eq { engine with highest } kind round voter value
    rw [noted]
    split
    · exact ⟨_, _, _, _, _, recorded, told⟩
    · exact ⟨_, _, _, _, _, rfl, told⟩

/-- What a call tells the engine is what the world may tell it. -/
def Call.Told (world : World) (engine : Tendermint) : Call → Prop
  | .onProposal round _ value _ valid => round ≤ maxU32 ∧ (valid = true → world.accepts value)
  | .onValue value valid => valid = true → world.accepts value
  | .onVote kind round voter value => round ≤ maxU32 ∧
      (voter < engine.n → some voter ≠ engine.me → world.told kind round voter value)
  | _ => True

/-- Every call is a sequence of moves. -/
theorem Call.Told.moves {world : World} {engine : Tendermint} {made : Call}
    (told : made.Told world engine) (order : IterOrder) (now : Nat) :
    Moves world engine (made.run order now engine).1 (made.run order now engine).2 := by
  cases made with
  | start => exact engine.moves_start world order now
  | onProposal round sender value polRound valid =>
    exact engine.moves_onProposal world order now round sender value polRound valid told.1 told.2
  | onValue value valid => exact engine.moves_onValue world order now value valid told
  | onVote kind round voter value =>
    exact engine.moves_onVote world order now kind round voter value told.1 told.2
  | tick => exact engine.moves_tick world order now

structure NodeState where
  engine : Tendermint
  disk : Option Saved
  /-- What the engine asked for and has not been carried out, each with the state
  saved after its call. -/
  queue : List (Action × Saved)
  /-- Everything the calls returned, in order. -/
  emitted : List Action
  /-- Everything carried out, in order. -/
  released : List Action

namespace NodeState

def call (node : NodeState) (order : IterOrder) (now : Nat) (made : Call) : NodeState :=
  let (engine, out) := made.run order now node.engine
  { node with
    engine := engine
    queue := node.queue ++ out.map fun action => (action, engine.saved)
    emitted := node.emitted ++ out }

def release (node : NodeState) : NodeState :=
  match node.queue with
  | [] => node
  | (action, saved) :: rest =>
    { node with
      queue := rest
      released := node.released ++ [action]
      disk := match action with
        | .vote _ _ _ => some saved
        | _ => node.disk }

def crash (setting : Setting) (seat : Nat) (timeouts : Timeouts) (node : NodeState) : NodeState :=
  { node with
    engine :=
      Tendermint.rebuild setting.height setting.n (some seat) timeouts setting.carried node.disk
    queue := [] }

end NodeState

abbrev System := Node → NodeState

def System.initial (timeouts : Node → Timeouts) : System := fun node =>
  { engine :=
      Tendermint.rebuild setting.height setting.n node.me (timeouts node) setting.carried none
    disk := none
    queue := []
    emitted := []
    released := [] }

/-- A message that names a correct member as its sender was sent by it. -/
def Call.Authentic : Call → Prop
  | .onProposal round sender value polRound _ =>
    round ≤ maxU32 ∧ (sender < setting.n → sender ∈ setting.faulty ∨
      .propose round polRound none ∈ (system (.member sender)).released ∨
      .propose round polRound (some value) ∈ (system (.member sender)).released)
  | .onVote kind round voter value =>
    round ≤ maxU32 ∧ (voter < setting.n → voter ∈ setting.faulty ∨
      .vote kind round value ∈ (system (.member voter)).released)
  | _ => True

instance (setting : Setting) (system : System) (call : Call) :
    Decidable (call.Authentic setting system) := by
  cases call <;> unfold Call.Authentic <;> infer_instance

inductive Event where
  | call (node : Node) (order : IterOrder) (now : Nat) (made : Call)
  | release (node : Node)
  | crash (seat : Nat) (timeouts : Timeouts)

def Event.node : Event → Node
  | .call node _ _ _ => node
  | .release node => node
  | .crash seat _ => .member seat

def Event.change (node : NodeState) : Event → NodeState
  | .call _ order now made => node.call order now made
  | .release _ => node.release
  | .crash seat timeouts => node.crash setting seat timeouts

def Event.Allowed : Event → Prop
  | .call node _ _ made => setting.Correct node ∧ made.Authentic setting system
  | .release node => setting.Correct node
  | .crash seat _ => setting.Correct (.member seat)

instance (setting : Setting) (system : System) (event : Event) :
    Decidable (event.Allowed setting system) := by
  cases event <;> unfold Event.Allowed <;> infer_instance

def System.step (event : Event) : System :=
  Function.update system event.node (event.change setting (system event.node))

/-- The state after a list of events, if each was allowed when it happened. -/
def System.run (setting : Setting) (system : System) : List Event → Option System
  | [] => some system
  | event :: rest =>
    if event.Allowed setting system then (system.step setting event).run setting rest else none

end EgoChain.Consensus
