import EgoChain.Consensus.CommitteeRun

/-!
# Agreement of a committee

The votes on the members' disks obey the rules of voting with locks, and every
decision that leaves a node rests on a quorum of precommits among them.  So no
two nodes carry out different decisions.
-/

namespace EgoChain.Consensus

open EgoChain.Foundations Tendermint List
open EgoChain.Foundations.LockVoting (Committee Votes Polka Commit Disciplined)

/-- The votes of correct members that have left. -/
def System.heard (system : System) : Heard := fun kind round voter value =>
  .vote kind round value ∈ (system (.member voter)).released

/-- Every value counts. -/
def noJunk : ValueId → Prop := fun _ => False

/-- The votes and verdicts that may reach an engine. -/
def Setting.world (setting : Setting) (heard : Heard) : World :=
  worldOf setting.committee noJunk heard fun _ => True

/-- A later memory of the same member remembers every earlier vote. -/
def Saved.Extends (later earlier : Saved) : Prop :=
  ∀ {kind round value}, earlier.memory.voted kind round value → later.memory.voted kind round value

variable {setting : Setting} {seat now : Nat} {order : IterOrder} {made : Call}

theorem Setting.committee_seat (inside : seat < setting.n) :
    (some seat).filter (· < setting.n) = some seat := by
  simp [inside]

namespace NodeState

/-- The votes in the state on disk. -/
def persisted (node : NodeState) (kind : VoteKind) (round : Nat) (value : Option ValueId) : Prop :=
  ∃ saved, node.disk = some saved ∧ saved.memory.voted kind round value

/-- The saved states of a node from the one on disk to the newest in its queue. -/
def history (node : NodeState) : List Saved :=
  node.disk.toList ++ node.queue.map Prod.snd

/-- The votes heard of, with the member's votes on disk and those in front of it in
the queue. -/
def backing (heard : Heard) (me : Option Nat) (node : NodeState)
    (before : List (Action × Saved)) : Heard := fun kind round voter value =>
  heard kind round voter value ∨ (me = some voter ∧
    (node.persisted kind round value ∨ .vote kind round value ∈ before.map Prod.fst))

/-- What holds of every node, whatever the others do. -/
structure Ok (setting : Setting) (heard : Heard) (me : Option Nat) (node : NodeState) : Prop where
  seat : node.engine.me = me ∧ node.engine.n = setting.n ∧ node.engine.height = setting.height
  engineOk : node.engine.Ok setting.committee noJunk heard
  saved : ∀ saved ∈ node.history, saved.height = setting.height ∧
    (me ≠ none → saved.memory.Ok setting.committee noJunk heard me) ∧ node.engine.saved.Extends saved
  chain : node.history.Pairwise fun earlier later => later.Extends earlier
  queuedVote : ∀ {kind round value saved}, (.vote kind round value, saved) ∈ node.queue →
    saved.memory.voted kind round value
  accounted : ∀ {kind round value}, node.engine.memory.voted kind round value →
    node.persisted kind round value ∨ .vote kind round value ∈ node.queue.map Prod.fst
  releasedVote : ∀ {kind round value}, .vote kind round value ∈ node.released →
    node.persisted kind round value
  queuedDecide : ∀ {before after round value saved},
    node.queue = before ++ (.decide round value, saved) :: after →
    Commit setting.committee (votesOf noJunk (node.backing heard me before)) round value
  releasedDecide : ∀ {round value}, .decide round value ∈ node.released →
    Commit setting.committee (votesOf noJunk (node.backing heard me [])) round value

variable {heard : Heard} {me : Option Nat} {node : NodeState} {more : Heard}

theorem backing_mono {later : NodeState} {before after : List (Action × Saved)}
    (grows : ∀ kind round voter value, heard kind round voter value → more kind round voter value)
    (keeps : ∀ kind round value,
      node.persisted kind round value ∨ .vote kind round value ∈ before.map Prod.fst →
      later.persisted kind round value ∨ .vote kind round value ∈ after.map Prod.fst)
    (kind : VoteKind) (round voter : Nat) (value : Option ValueId)
    (backed : node.backing heard me before kind round voter value) :
    later.backing more me after kind round voter value := by
  rcases backed with heardOf | ⟨mine, own⟩
  · exact Or.inl (grows _ _ _ _ heardOf)
  · exact Or.inr ⟨mine, keeps _ _ _ own⟩

/-- Hearing of more votes keeps the invariant. -/
theorem Ok.hear (ok : node.Ok setting heard me)
    (grows : ∀ kind round voter value, heard kind round voter value →
      more kind round voter value) : node.Ok setting more me :=
  { ok with
    engineOk := ok.engineOk.hear grows
    saved := fun saved mem =>
      let ⟨height, disciplined, extends'⟩ := ok.saved saved mem
      ⟨height, fun member => (disciplined member).hear grows, extends'⟩
    queuedDecide := fun split =>
      commit_mono (backing_mono grows fun _ _ _ => id) (ok.queuedDecide split)
    releasedDecide := fun mem =>
      commit_mono (backing_mono grows fun _ _ _ => id) (ok.releasedDecide mem) }

theorem Ok.call (ok : node.Ok setting heard me)
    (moves : Moves (setting.world heard) node.engine (made.run order now node.engine).1
      (made.run order now node.engine).2) : (node.call order now made).Ok setting heard me := by
  rcases turn : made.run order now node.engine with ⟨engine, out⟩
  unfold NodeState.call
  rw [turn] at moves ⊢
  have engineOk := ok.engineOk.moves moves
  obtain ⟨sameMe, sameN, sameHeight⟩ := moves.seat
  have grown : engine.saved.Extends node.engine.saved := by
    intro kind round value voted
    rw [saved_memory] at voted ⊢
    exact (moves.voted kind round value).mpr (Or.inl voted)
  refine
    { seat := ⟨sameMe.trans ok.seat.1, sameN.trans ok.seat.2.1, sameHeight.trans ok.seat.2.2⟩
      engineOk := engineOk
      saved := ?saved
      chain := ?chain
      queuedVote := ?queuedVote
      accounted := ?accounted
      releasedVote := ok.releasedVote
      queuedDecide := ?queuedDecide
      releasedDecide := ok.releasedDecide }
  case saved =>
    intro saved mem
    rw [history, map_append, map_map, ← append_assoc] at mem
    rcases mem_append.mp mem with old | new
    · obtain ⟨height, disciplined, extended⟩ := ok.saved saved old
      exact ⟨height, disciplined, fun voted => grown (extended voted)⟩
    obtain ⟨-, -, rfl⟩ := mem_map.mp new
    refine ⟨sameHeight.trans ok.seat.2.2, fun member => ?_, id⟩
    change Memory.Ok _ _ _ _ engine.saved.memory
    rw [saved_memory]
    have remembers := engineOk.remembers
    rw [sameMe.trans ok.seat.1] at remembers
    exact remembers member
  case chain =>
    rw [history, map_append, map_map, ← append_assoc, pairwise_append]
    refine ⟨ok.chain, ?_, ?_⟩
    · rw [pairwise_map]
      exact pairwise_of_forall fun _ _ => id
    · intro earlier old later new
      obtain ⟨-, -, rfl⟩ := mem_map.mp new
      intro kind round value voted
      exact grown ((ok.saved earlier old).2.2 voted)
  case queuedVote =>
    intro kind round value saved mem
    rcases mem_append.mp mem with old | new
    · exact ok.queuedVote old
    · obtain ⟨action, inOut, same⟩ := mem_map.mp new
      cases same
      rw [saved_memory]
      exact (moves.voted kind round value).mpr (Or.inr inOut)
  case accounted =>
    intro kind round value voted
    rcases (moves.voted kind round value).mp voted with old | new
    · rcases ok.accounted old with onDisk | queued
      · exact Or.inl onDisk
      · right
        rw [map_append]
        exact mem_append_left _ queued
    · right
      rw [map_append, map_map]
      exact mem_append_right _ (mem_map.mpr ⟨_, new, rfl⟩)
  case queuedDecide =>
    intro before after round value saved split
    rcases append_eq_append_cons split with ⟨rest, beforeIs, newIs⟩ | ⟨rest, oldIs⟩
    · -- The decision is new: its backing is the engine's, and every own vote in it is
      -- on disk or in front of it in the queue.
      have outIs : out = rest.map Prod.fst ++ .decide round value :: after.map Prod.fst := by
        have fsts := congrArg (List.map Prod.fst) newIs
        simpa [Function.comp_def] using fsts
      refine commit_mono ?_ (Moves.decided ok.engineOk moves id outIs)
      rintro kind at' voter v (heardOf | ⟨mine, own⟩)
      · exact Or.inl heardOf
      · refine Or.inr ⟨ok.seat.1 ▸ mine, ?_⟩
        rw [beforeIs, map_append]
        rcases own with remembered | emitted
        · rcases ok.accounted remembered with onDisk | queued
          · exact Or.inl onDisk
          · exact Or.inr (mem_append_left _ queued)
        · exact Or.inr (mem_append_right _ emitted)
    · exact ok.queuedDecide oldIs

/-- Carrying out the first action of the queue: the state on disk moves on with it. -/
theorem Ok.release (ok : node.Ok setting heard me) : node.release.Ok setting heard me := by
  cases queued : node.queue with
  | nil =>
    rw [NodeState.release, queued]
    exact ok
  | cons item rest =>
    obtain ⟨action, saved⟩ := item
    obtain ⟨disk, released, historyKept, diskKept, diskNew⟩ : ∃ disk, node.release = { node with
            queue := rest, released := node.released ++ [action], disk := disk } ∧
          (disk.toList ++ rest.map Prod.snd).Sublist node.history ∧
          (∀ kind round value, node.persisted kind round value →
            ∃ state, disk = some state ∧ state.memory.voted kind round value) ∧
          ∀ kind round value, action = .vote kind round value →
            ∃ state, disk = some state ∧ state.memory.voted kind round value := by
      have passes : (node.disk.toList ++ rest.map Prod.snd).Sublist node.history := by
        rw [history, queued]
        exact (List.Sublist.refl _).append (sublist_cons_self _ _)
      cases action with
      | propose | decide =>
        refine ⟨node.disk, by rw [NodeState.release, queued], passes, fun _ _ _ => id, ?_⟩
        intro kind round value impossible
        cases impossible
      | vote kind round value =>
        refine ⟨some saved, by rw [NodeState.release, queued], ?_, ?_, ?_⟩
        · rw [history, queued]
          exact sublist_append_right _ _
        · rintro k r v ⟨old, found, voted⟩
          have ordered := ok.chain
          rw [history, queued, found] at ordered
          exact ⟨saved, rfl, (pairwise_cons.mp ordered).1 saved (by simp) voted⟩
        · intro k r v same
          cases same
          exact ⟨saved, rfl, ok.queuedVote (queued ▸ mem_cons_self)⟩
    rw [released]
    refine
      { seat := ok.seat
        engineOk := ok.engineOk
        saved := fun state mem => ok.saved state (historyKept.subset mem)
        chain := ok.chain.sublist historyKept
        queuedVote := fun mem => ok.queuedVote (queued ▸ mem_cons_of_mem _ mem)
        accounted := ?accounted
        releasedVote := ?releasedVote
        queuedDecide := ?queuedDecide
        releasedDecide := ?releasedDecide }
    case accounted =>
      intro kind round value voted
      rcases ok.accounted voted with onDisk | waiting
      · exact Or.inl (diskKept _ _ _ onDisk)
      · rw [queued] at waiting
        rcases mem_cons.mp waiting with first | later
        · exact Or.inl (diskNew _ _ _ first.symm)
        · exact Or.inr later
    case releasedVote =>
      intro kind round value mem
      rcases mem_append.mp mem with old | new
      · exact diskKept _ _ _ (ok.releasedVote old)
      · exact diskNew _ _ _ (mem_singleton.mp new).symm
    case queuedDecide =>
      intro before after round value state split
      have whole := queued
      rw [show rest = _ from split, ← cons_append] at whole
      refine commit_mono (backing_mono (fun _ _ _ _ => id) ?_) (ok.queuedDecide whole)
      rintro kind at' v (onDisk | inFront)
      · exact Or.inl (diskKept _ _ _ onDisk)
      · rcases mem_cons.mp inFront with first | later
        · exact Or.inl (diskNew _ _ _ first.symm)
        · exact Or.inr later
    case releasedDecide =>
      intro round value mem
      rcases mem_append.mp mem with old | new
      · refine commit_mono (backing_mono (fun _ _ _ _ => id) ?_) (ok.releasedDecide old)
        exact fun kind at' v own => own.imp_left (diskKept kind at' v)
      · obtain rfl := mem_singleton.mp new
        refine commit_mono (backing_mono (fun _ _ _ _ => id) ?_)
          (ok.queuedDecide (queued.trans (nil_append _).symm))
        exact fun kind at' v own => own.imp_left (diskKept kind at' v)

theorem Ok.crash {timeouts : Timeouts} (inside : seat < setting.n)
    (ok : node.Ok setting heard (some seat)) :
    (node.crash setting seat timeouts).Ok setting heard (some seat) := by
  have onDisk : ∀ state, node.disk = some state → state.height = setting.height ∧
      state.memory.Ok setting.committee noJunk heard ((some seat).filter (· < setting.n)) := by
    intro state found
    obtain ⟨height, disciplined, -⟩ := ok.saved state (by simp [history, found])
    rw [Setting.committee_seat inside]
    exact ⟨height, disciplined (by simp)⟩
  have voted := rebuild_voted setting.n (some seat) timeouts setting.carried
    node.disk fun state found => ⟨(onDisk state found).1, (onDisk state found).2.oneVote⟩
  refine
    { seat := ?seat
      engineOk := rebuild_ok rfl rfl onDisk
      saved := ?saved
      chain := ?chain
      queuedVote := nofun
      accounted := fun remembered => Or.inl ((voted _ _ _).mp remembered)
      releasedVote := ok.releasedVote
      queuedDecide := ?queuedDecide
      releasedDecide := ok.releasedDecide }
  case seat =>
    obtain ⟨me, n, height⟩ := rebuild_seat setting.height setting.n (some seat) timeouts
      setting.carried node.disk
    exact ⟨me.trans (Setting.committee_seat inside), n, height⟩
  case saved =>
    intro state mem
    have found : node.disk = some state := by simpa [history, NodeState.crash] using mem
    obtain ⟨height, disciplined, -⟩ := ok.saved state (by simp [history, found])
    refine ⟨height, disciplined, ?_⟩
    intro kind round value there
    rw [saved_memory]
    exact (voted kind round value).mpr ⟨state, found, there⟩
  case chain =>
    cases found : node.disk with
    | none | some state => simp [history, NodeState.crash, found]
  case queuedDecide =>
    intro before after round value saved split
    simp [NodeState.crash] at split

theorem initial_ok (setting : Setting) (timeouts : Node → Timeouts) (heard : Heard) (node : Node) :
    (System.initial setting timeouts node).Ok setting heard (node.me.filter (· < setting.n)) where
  seat := rebuild_seat _ _ _ _ _ _
  engineOk := by
    exact @rebuild_ok setting.committee _ _ _ setting.n _ _ _ none rfl rfl nofun
  saved := nofun
  chain := List.Pairwise.nil
  queuedVote := nofun
  accounted voted := by
    obtain ⟨state, impossible, -⟩ := (rebuild_voted setting.n node.me _
      setting.carried none (nofun) _ _ _).mp voted
    cases impossible
  releasedVote := nofun
  queuedDecide split := by simp [System.initial] at split
  releasedDecide := nofun

end NodeState

/-! ## Whole runs -/

theorem Call.moves {system : System} {engine : Tendermint}
    (authentic : made.Authentic setting system) (size : engine.n = setting.n) :
    Moves (setting.world system.heard) engine (made.run order now engine).1
      (made.run order now engine).2 := by
  refine Call.Told.moves ?_ order now
  cases made with
  | onProposal => exact ⟨authentic.1, fun _ => trivial⟩
  | onValue => exact fun _ => trivial
  | onVote => exact ⟨authentic.1, fun inside _ => (authentic.2 (size ▸ inside)).imp_right Or.inr⟩
  | start | tick => trivial

theorem Event.released_grows (setting : Setting) (node : NodeState) (event : Event) :
    ∀ action ∈ node.released, action ∈ (event.change setting node).released := by
  intro action mem
  cases event with
  | call | crash => exact mem
  | release =>
    show action ∈ node.release.released
    unfold NodeState.release
    split
    · exact mem
    · exact mem_append_left _ mem

namespace System

/-- The invariant of a run: every node is in order, given what all members sent. -/
def Ok (setting : Setting) (system : System) : Prop :=
  ∀ node : Node, (system node).Ok setting system.heard (node.me.filter (· < setting.n))

variable {system : System}

theorem heard_step (setting : Setting) (system : System) (event : Event) (kind : VoteKind) (round voter : Nat)
    (value : Option ValueId) (told : system.heard kind round voter value) :
    (system.step setting event).heard kind round voter value := by
  unfold heard step
  by_cases here : Node.member voter = event.node
  · rw [here, Function.update_self]
    exact event.released_grows setting _ _ (here ▸ told)
  · rw [Function.update_of_ne here]
    exact told

theorem initial_ok (setting : Setting) (timeouts : Node → Timeouts) :
    (System.initial setting timeouts).Ok setting :=
  NodeState.initial_ok setting timeouts _

variable (ok : system.Ok setting)

include ok

theorem Ok.step {event : Event} (allowed : event.Allowed setting system) :
    (system.step setting event).Ok setting := by
  have changed : (event.change setting (system event.node)).Ok setting system.heard
      (event.node.me.filter (· < setting.n)) := by
    cases event with
    | call node order now made =>
      exact (ok node).call (Call.moves allowed.2 (ok node).seat.2.1)
    | release node => exact (ok node).release
    | crash seat timeouts =>
      have inside : seat < setting.n := allowed.1
      have before := ok (.member seat)
      show ((system (.member seat)).crash setting seat timeouts).Ok setting system.heard
        ((some seat).filter (· < setting.n))
      rw [show Node.me (.member seat) = some seat from rfl, Setting.committee_seat inside] at before
      rw [Setting.committee_seat inside]
      exact before.crash inside
  intro node
  have grown := heard_step setting system event
  by_cases here : node = event.node
  · subst here
    unfold System.step at *
    rw [Function.update_self]
    exact changed.hear grown
  · rw [show system.step setting event node = system node from Function.update_of_ne here _ _]
    exact (ok node).hear grown

theorem Ok.run {events : List Event} {last : System} (ran : system.run setting events = some last) :
    last.Ok setting := by
  induction events generalizing system with
  | nil =>
    cases ran
    exact ok
  | cons event rest ih =>
    unfold System.run at ran
    split at ran
    case isFalse => cases ran
    case isTrue allowed => exact ih (ok.step allowed) ran

/-- The votes on the members' disks. -/
def onDisk (system : System) : Heard := fun kind round voter value =>
  (system (.member voter)).persisted kind round value

theorem Ok.heard_onDisk (kind : VoteKind) (round voter : Nat) (value : Option ValueId)
    (told : system.heard kind round voter value) : system.onDisk kind round voter value :=
  (ok (.member voter)).releasedVote told

/-- The votes on a correct member's disk obey the rules of voting with locks. -/
theorem Ok.disciplined (inside : seat < setting.n) :
    Disciplined setting.committee (votesOf noJunk system.onDisk) seat := by
  have memberOk := ok (.member seat)
  rw [show Node.me (.member seat) = some seat from rfl, Setting.committee_seat inside] at memberOk
  -- Every vote on disk is in one saved state, and that state is disciplined.
  have disk : ∀ {kind round value}, system.onDisk kind round seat value →
      ∃ state, (system (.member seat)).disk = some state ∧ state.memory.voted kind round value ∧
        state.memory.Ok setting.committee noJunk system.heard (some seat) := by
    rintro kind round value ⟨state, found, voted⟩
    have mem : state ∈ (system (.member seat)).history := by simp [NodeState.history, found]
    exact ⟨state, found, voted, (memberOk.saved state mem).2.1 (by simp)⟩
  have wider : ∀ {state}, (system (.member seat)).disk = some state →
      ∀ kind round voter value, known system.heard (some seat) state.memory kind round voter value →
        system.onDisk kind round voter value := by
    rintro state found kind round voter value (told | ⟨mine, voted⟩)
    · exact ok.heard_onDisk kind round voter value told
    · cases mine
      exact ⟨state, found, voted⟩
  refine ⟨?onePrevote, ?onePrecommit, ?_, ?_⟩
  case onePrevote | onePrecommit =>
    intro round value other ⟨_, first⟩ ⟨_, second⟩
    obtain ⟨state, found, voted, disciplined⟩ := disk first
    obtain ⟨again, foundAgain, votedAgain, -⟩ := disk second
    cases found.symm.trans foundAgain
    exact Option.some.inj (disciplined.oneVote voted votedAgain)
  · intro round value ⟨_, precommitted⟩
    obtain ⟨state, found, voted, disciplined⟩ := disk precommitted
    exact polka_mono (wider found) ((disciplined.precommitLocked voted).1 id)
  · intro round value later other ⟨_, precommitted⟩ ⟨_, prevoted⟩ after different
    obtain ⟨state, found, voted, disciplined⟩ := disk precommitted
    obtain ⟨again, foundAgain, votedAgain, -⟩ := disk prevoted
    cases found.symm.trans foundAgain
    obtain ⟨proof, least, below, polka⟩ := disciplined.justified voted votedAgain after id different
    exact ⟨proof, least, below, polka_mono (wider found) polka⟩

/-- A decision that left a node rests on a quorum of precommits on disk. -/
theorem Ok.commit {node : Node} {round : Nat} {value : ValueId}
    (decided : .decide round value ∈ (system node).released) :
    Commit setting.committee (votesOf noJunk system.onDisk) round value := by
  refine commit_mono ?_ ((ok node).releasedDecide decided)
  rintro kind at' voter v (told | ⟨mine, own⟩)
  · exact ok.heard_onDisk kind at' voter v told
  · have persisted := own.resolve_right (by simp)
    cases node with
    | observer => cases mine
    | member seat =>
      obtain ⟨same, -⟩ := Option.filter_eq_some_iff.mp mine
      cases same
      exact persisted

end System

/-- Agreement: in every run, no two correct members or observers carry out different
decisions, with any interleaving of calls, any order the maps pick, any loss,
duplication and delay of messages, and any crashes. -/
theorem released_decisions_agree (setting : Setting) (timeouts : Node → Timeouts)
    (events : List Event) (system : System)
    (ran : (System.initial setting timeouts).run setting events = some system)
    (node other : Node) (round later : Nat) (value second : ValueId)
    (decided : .decide round value ∈ (system node).released)
    (decidedToo : .decide later second ∈ (system other).released) : value = second := by
  have ok : system.Ok setting := (System.initial_ok setting timeouts).run ran
  refine LockVoting.commit_unique ?_ (ok.commit decided) (ok.commit decidedToo)
  intro seat inside _
  exact ok.disciplined (Finset.mem_range.mp inside)

def firstValue : ValueId := Vector.replicate 32 1
def secondValue : ValueId := Vector.replicate 32 2

def Event.at (seat now : Nat) (made : Call) : Event := .call (.member seat) .inserted now made

/-- Four members, the last of them faulty. -/
def forkSetting : Setting where
  height := 3
  n := 4
  faulty := {3}
  few := by decide
  carried := none

/-- Members 0 and 1 precommit the first value, and so does the faulty member.  Member 0 decides it,
and so does an observer. -/
def decidingEvents : List Event :=
  [ .at 0 0 .start, .at 1 0 .start, .at 2 0 .start,
    .at 0 0 (.onProposal 0 3 firstValue none true),
    .at 1 0 (.onProposal 0 3 firstValue none true),
    .at 2 0 (.onProposal 0 3 firstValue none true),
    .release (.member 0), .release (.member 1), .release (.member 2),
    .at 0 0 (.onVote .prevote 0 1 (some firstValue)),
    .at 0 0 (.onVote .prevote 0 2 (some firstValue)),
    .at 1 0 (.onVote .prevote 0 0 (some firstValue)),
    .at 1 0 (.onVote .prevote 0 2 (some firstValue)),
    .release (.member 0), .release (.member 1),
    .at 0 0 (.onVote .precommit 0 1 (some firstValue)),
    .at 0 0 (.onVote .precommit 0 3 (some firstValue)),
    .release (.member 0),
    .call (.observer 0) .inserted 0 (.onValue firstValue true),
    .call (.observer 0) .inserted 0 (.onVote .precommit 0 0 (some firstValue)),
    .call (.observer 0) .inserted 0 (.onVote .precommit 0 1 (some firstValue)),
    .call (.observer 0) .inserted 0 (.onVote .precommit 0 3 (some firstValue)),
    .release (.observer 0) ]

theorem member_and_observer_agree : ∃ system value second,
      (System.initial forkSetting fun _ => {}).run forkSetting decidingEvents = some system ∧
      .decide 0 value ∈ (system (.member 0)).released ∧
      .decide 0 second ∈ (system (.observer 0)).released ∧ value = second := by
  have decided : ∃ system ∈ (System.initial forkSetting fun _ => {}).run forkSetting decidingEvents,
      .decide 0 firstValue ∈ (system (.member 0)).released ∧
        .decide 0 firstValue ∈ (system (.observer 0)).released := by
    decide
  obtain ⟨system, ran, byMember, byObserver⟩ := decided
  exact ⟨system, firstValue, firstValue, ran, byMember, byObserver,
    released_decisions_agree forkSetting _ decidingEvents system ran (.member 0) (.observer 0) 0 0
      firstValue firstValue byMember byObserver⟩

/-- Member 0 precommits and decides in one call, crashes before the precommit leaves,
and forgets both.  The others then decide another value in the next round. -/
def forkEvents : List Event :=
  [ -- Round 0: everyone prevotes the first value, and member 1 precommits it.
    .at 0 0 .start, .at 1 0 .start, .at 2 0 .start,
    .at 0 0 (.onProposal 0 3 firstValue none true),
    .at 1 0 (.onProposal 0 3 firstValue none true),
    .at 2 0 (.onProposal 0 3 firstValue none true),
    .release (.member 0), .release (.member 1), .release (.member 2),
    .at 1 0 (.onVote .prevote 0 0 (some firstValue)),
    .at 1 0 (.onVote .prevote 0 2 (some firstValue)),
    .release (.member 1),
    -- Member 0 hears the precommits of members 1 and 3, then the polka: it decides.
    .at 0 0 (.onVote .precommit 0 1 (some firstValue)),
    .at 0 0 (.onVote .precommit 0 3 (some firstValue)),
    .at 0 0 (.onVote .prevote 0 1 (some firstValue)),
    .at 0 0 (.onVote .prevote 0 2 (some firstValue)),
    .crash 0 {},
    -- Restarted with its prevote only, it times out into round 1 and proposes.
    .at 0 0 .start,
    .at 0 0 (.onVote .precommit 0 1 (some firstValue)),
    .at 0 0 (.onVote .precommit 0 3 (some firstValue)),
    .at 0 100000 .tick, .at 0 200000 .tick,
    .release (.member 0), .release (.member 0),
    -- Round 1: members 0, 2 and 3 settle on the second value.
    .at 0 200000 (.onProposal 1 0 secondValue none true),
    .release (.member 0),
    .at 2 0 (.onProposal 1 0 secondValue none true),
    .at 2 0 (.onVote .prevote 1 3 (some secondValue)),
    .at 2 0 (.onVote .prevote 1 0 (some secondValue)),
    .release (.member 2),
    .at 0 200000 (.onVote .prevote 1 2 (some secondValue)),
    .at 0 200000 (.onVote .prevote 1 3 (some secondValue)),
    .release (.member 0),
    .at 2 0 (.onVote .precommit 1 3 (some secondValue)),
    .at 2 0 (.onVote .precommit 1 0 (some secondValue)) ]

/-- A decision that a call returned but that never left the node is not covered. -/
theorem emitted_decisions_can_differ :
    ¬ ∀ (setting : Setting) (timeouts : Node → Timeouts) (events : List Event) (system : System),
      (System.initial setting timeouts).run setting events = some system →
      ∀ (node other : Node) (round later : Nat) (value second : ValueId),
        setting.Correct node → setting.Correct other →
        .decide round value ∈ (system node).emitted →
        .decide later second ∈ (system other).emitted → value = second := by
  intro agree
  have fork : ∃ system ∈ (System.initial forkSetting fun _ => {}).run forkSetting forkEvents,
      .decide 0 firstValue ∈ (system (.member 0)).emitted ∧
        .decide 1 secondValue ∈ (system (.member 2)).emitted := by
    decide +kernel
  obtain ⟨system, ran, first, second⟩ := fork
  have same :=
    agree forkSetting _ forkEvents system ran (.member 0) (.member 2) 0 1 firstValue secondValue
      (by decide) (by decide) first second
  exact absurd same (by decide)

end EgoChain.Consensus
