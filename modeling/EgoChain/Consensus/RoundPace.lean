import EgoChain.Consensus.Equivocation
import Mathlib.Order.Lattice.Nat

/-!
# How rounds go up

An engine enters a higher round for one of two reasons: enough other members have
spoken in it, or its own wait for precommits has run out.  The first needs one
correct member that was there before, so only the second takes a correct member
to a round that none of them has entered.
-/

namespace EgoChain.Consensus

open EgoChain.Foundations List Finset Nat

/-- The round in which an action speaks to the other members. -/
def Action.spokenIn : Action → Nat
  | .propose round _ _ => round
  | .vote _ round _ => round
  | .decide _ _ => 0

namespace Tendermint

/-- There are few faulty members, and the engine has heard no other member above the round. -/
structure Calm (faulty : Finset Nat) (top : Nat) (engine : Tendermint) : Prop where
  small : engine.Small
  few : faulty.card ≤ engine.n - quorum engine.n
  heard : ∀ {member round}, engine.highest.lookup member = some round → member ∈ faulty ∨ round ≤ top

/-- The engine waits for no round above its own. -/
def WaitsBelow (engine : Tendermint) : Prop :=
  ∀ timer ∈ engine.timers, timer.2.1 ≤ engine.round

variable {faulty : Finset Nat} {engine : Tendermint}

theorem Calm.mono {top more : Nat}
    (calm : engine.Calm faulty top) (le : top ≤ more) : engine.Calm faulty more :=
  ⟨calm.small, calm.few, fun found => (calm.heard found).imp_right fun below => below.trans le⟩

/-- In a descending list, as many entries as stand up to a place are at least as large as the
entry there. -/
theorem succ_le_countP_of_descending {rounds : List Nat} (sorted : rounds.Pairwise (· ≥ ·))
    {place target : Nat} (there : rounds[place]? = some target) :
    place + 1 ≤ rounds.countP (target ≤ ·) := by
  induction rounds generalizing place with
  | nil => cases there
  | cons round rest ih =>
    obtain ⟨first, sortedRest⟩ := pairwise_cons.mp sorted
    cases place with
    | zero =>
      obtain rfl : round = target := by simpa using there
      rw [countP_cons_of_pos (by simp)]
      omega
    | succ place =>
      have later : rest[place]? = some target := by simpa using there
      have above : target ≤ round := first target (mem_of_getElem? later)
      rw [countP_cons_of_pos (by simpa using above)]
      have count := ih sortedRest later
      omega

/-- A round that enough members have spoken in has been heard from a correct one. -/
theorem Calm.skipTarget_le {top target : Nat}
    (calm : engine.Calm faulty top) (found : engine.skipTarget = some target) : target ≤ top := by
  unfold skipTarget at found
  dsimp only at found
  split at found
  case h_2 => cases found
  case h_1 round there =>
  obtain ⟨-, found⟩ := Option.ite_none_right_eq_some.mp found
  obtain rfl := Option.some.inj found
  have many := succ_le_countP_of_descending (pairwise_insertionSort _ _) there
  rw [(perm_insertionSort _ _).countP_eq, countP_map, countP_eq_length_filter, List.filter_filter,
    ← @length_map _ _ _ Sigma.fst, ← toFinset_card_of_nodup (KeyedMap.filter_keys_nodup _ _)] at many
  by_contra higher
  -- The members counted are different, and all of them are faulty.
  have counted : _ ≤ faulty.card := many.trans (card_le_card fun member mem => by
    obtain ⟨entry, listed, rfl⟩ := mem_map.mp (mem_toFinset.mp mem)
    obtain ⟨inside, passed⟩ := mem_filter.mp listed
    have known := (KeyedMap.mem_entries_iff engine.highest entry.1 entry.2).mp inside
    refine (calm.heard known).resolve_right fun below => ?_
    have reached : round ≤ entry.2 := of_decide_eq_true (Bool.and_eq_true_iff.mp passed).1
    omega)
  have few := calm.few
  unfold skipThreshold at counted
  omega

/-! ## One engine -/

/-- From one state to the next the round goes up to the bound at most, and nothing is said in a
round above the one reached. -/
structure Paces (faulty : Finset Nat) (top bound : Nat) (engine next : Tendermint)
    (out : List Action) : Prop where
  up : engine.round ≤ next.round
  within : next.round ≤ max engine.round bound
  calm : next.Calm faulty top
  waits : engine.WaitsBelow → next.WaitsBelow
  spoken : ∀ action ∈ out, action.spokenIn ≤ next.round

section

variable {faulty : Finset Nat} {top bound : Nat} {engine : Tendermint}

theorem Paces.refl (calm : engine.Calm faulty top) : Paces faulty top bound engine engine [] :=
  ⟨le_refl _, le_max_left _ _, calm, id, by simp⟩

theorem Paces.trans {middle next : Tendermint} {out more : List Action}
    (left : Paces faulty top bound engine middle out)
    (right : Paces faulty top bound middle next more) :
    Paces faulty top bound engine next (out ++ more) where
  up := left.up.trans right.up
  within := by
    have first := left.within
    have second := right.within
    omega
  calm := right.calm
  waits before := right.waits (left.waits before)
  spoken := forall_mem_append.mpr
    ⟨fun action mem => (left.spoken action mem).trans right.up, right.spoken⟩

section

variable (calm : engine.Calm faulty top)

include calm

/-- A change within the round. -/
theorem paces_within {next : Tendermint} {out : List Action} (round : next.round = engine.round)
    (size : next.n = engine.n) (highest : next.highest = engine.highest)
    (timers : ∀ timer ∈ next.timers, timer ∈ engine.timers ∨ timer.2.1 ≤ engine.round)
    (spoken : ∀ action ∈ out, action.spokenIn ≤ engine.round) :
    Paces faulty top bound engine next out where
  up := le_of_eq round.symm
  within := by
    rw [round]
    exact le_max_left _ _
  calm := by
    refine ⟨?_, ?_, fun found => ?_⟩
    · unfold Small
      rw [round, highest]
      exact calm.small
    · rw [size]
      exact calm.few
    · rw [highest] at found
      exact calm.heard found
  waits before timer mem := by
    rw [round]
    exact (timers timer mem).elim (before timer) id
  spoken action mem := by
    rw [round]
    exact spoken action mem

theorem paces_arm (timer : Timer) (now : Nat) :
    Paces faulty top bound engine (engine.arm timer engine.round now) [] := by
  unfold arm
  split
  · exact .refl calm
  · exact paces_within calm rfl rfl rfl
      (forall_mem_append.mpr ⟨fun _ => Or.inl, forall_mem_singleton.mpr (Or.inr (le_refl _))⟩) (by simp)

theorem paces_castAnd (kind : VoteKind) (value : Option ValueId) (step : Step) :
    Paces faulty top bound engine (engine.castAnd kind value step).1
      (engine.castAnd kind value step).2 := by
  obtain ⟨sent, prevotes, precommits, same⟩ := castAnd_eq engine kind value step
  rw [same]
  refine paces_within calm rfl rfl rfl (fun _ => Or.inl) fun action mem => ?_
  rw [mem_castAnd mem]
  exact le_refl _

theorem paces_takePolka (value : ValueId) :
    Paces faulty top bound engine (engine.takePolka value).1 (engine.takePolka value).2 := by
  unfold takePolka
  dsimp only
  split
  case isFalse => exact paces_within calm rfl rfl rfl (fun _ => Or.inl) (by simp)
  case isTrue =>
    have cast := @paces_castAnd _ top bound (engine.lockedOn value) { calm with } .precommit
      (some value) .precommit
    exact { cast with calm := { cast.calm with } }

theorem paces_startRound (now : Nat) {round : Nat} (u32 : round ≤ maxU32)
    (up : engine.round ≤ round) (below : round ≤ max engine.round bound) :
    Paces faulty top bound engine (engine.startRound now round).1 (engine.startRound now round).2 := by
  have entered : Paces faulty top bound engine { engine with round := round, step := .propose }
      (if some (engine.proposer round) = engine.me ∧ (round, VoteKind.prevote) ∉ engine.sent then
        [Action.propose round (engine.valid.map Prod.fst)
          ((engine.valid.map Prod.snd).or engine.carried)]
      else []) := by
    refine ⟨up, below, ⟨⟨u32, calm.small.2⟩, calm.few, calm.heard⟩, fun before timer mem => ?_, fun action mem => ?_⟩
    · exact (before timer mem).trans up
    · split at mem
      · rw [List.mem_singleton.mp mem]
        exact le_refl _
      · cases mem
  have armed := entered.trans (paces_arm entered.calm .propose now)
  rw [append_nil] at armed
  exact armed

end

/-- In the loop of the engine rounds are entered only after a correct member. -/
theorem paces_rule (faulty : Finset Nat) (le : top ≤ bound) :
    LoopRule fun engine next out => engine.Calm faulty top → Paces faulty top bound engine next out where
  refl _ calm := .refl calm
  trans left right calm := (left calm).trans (right (left calm).calm)
  arm _ timer now calm := paces_arm calm timer now
  skip _ now _ target calm := by
    obtain ⟨higher, member, heard⟩ := skipTarget_spec target
    have reached := calm.skipTarget_le target
    exact paces_startRound calm now (calm.small.2 heard) (le_of_lt higher) (by omega)
  prevote _ value _ _ calm := paces_castAnd calm .prevote value .prevote
  precommitNil _ _ calm := paces_castAnd calm .precommit none .precommit
  polka _ _ value _ calm := paces_takePolka calm value
  decide _ _ _ _ _ _ calm := paces_within calm rfl rfl rfl (by simp) (by simp [Action.spokenIn])

theorem paces_progress (calm : engine.Calm faulty top) (le : top ≤ bound) (order : IterOrder)
    (now : Nat) :
    Paces faulty top bound engine (engine.progress order now).1 (engine.progress order now).2 :=
  (paces_rule faulty le).progress order now engine calm

/-- A due timer starts the next round only if it waited for the precommits of this one. -/
theorem paces_fire (calm : engine.Calm faulty top) (now : Nat) (timer : Timer) (round : Nat)
    (next : timer = .precommit → round = engine.round → engine.round + 1 ≤ bound) :
    Paces faulty top bound engine (engine.fire now timer round).1 (engine.fire now timer round).2 := by
  unfold fire
  cases timer with
  | propose =>
    dsimp only
    split
    · exact paces_castAnd calm .prevote none .prevote
    · exact .refl calm
  | prevote =>
    dsimp only
    split
    · exact paces_castAnd calm .precommit none .precommit
    · exact .refl calm
  | precommit =>
    dsimp only
    split
    case isFalse => exact .refl calm
    case isTrue here =>
    have reached := next rfl here.symm
    have small := calm.small.1
    refine paces_startRound calm now (min_le_right _ _) ?_ ?_
    · unfold satAdd32
      omega
    · unfold satAdd32
      omega

theorem paces_fireAll (le : top ≤ bound) (order : IterOrder) (now start : Nat)
    {due : List (Timer × Nat × Nat)} (past : ∀ timer ∈ due, timer.2.1 ≤ start)
    (next : ∀ timer ∈ due, timer.1 = .precommit → timer.2.1 = start → start + 1 ≤ bound)
    (calm : engine.Calm faulty top) (since : start ≤ engine.round) :
    Paces faulty top bound engine (fireAll order now due engine).1
      (fireAll order now due engine).2 := by
  induction due generalizing engine with
  | nil => exact .refl calm
  | cons timer rest ih =>
    obtain ⟨timer, round, deadline⟩ := timer
    unfold fireAll
    split
    · exact .refl calm
    -- A timer of the round the engine is in is one of the round it started from.
    have old : round ≤ start := past _ mem_cons_self
    have fired : Paces faulty top bound engine (engine.fire now timer round).1
        (engine.fire now timer round).2 := by
      refine paces_fire calm now timer round fun isPrecommit here => ?_
      have same : round = start := by omega
      have reached := next _ mem_cons_self isPrecommit same
      omega
    have progressed := fired.trans (paces_progress fired.calm le order now)
    exact progressed.trans (ih (fun other mem => past other (mem_cons_of_mem _ mem))
      (fun other mem => next other (mem_cons_of_mem _ mem)) progressed.calm
      (since.trans progressed.up))

theorem paces_tick (calm : engine.Calm faulty top) (waits : engine.WaitsBelow) (le : top ≤ bound)
    (order : IterOrder) (now : Nat)
    (next : ∀ deadline ≤ now, (Timer.precommit, engine.round, deadline) ∈ engine.timers →
      engine.round + 1 ≤ bound) :
    Paces faulty top bound engine (engine.tick order now).1 (engine.tick order now).2 := by
  have drained : Paces faulty top bound engine
      { engine with timers := engine.timers.filter fun timer => ¬ timer.2.2 ≤ now } [] :=
    paces_within calm rfl rfl rfl (fun _ mem => Or.inl (mem_of_mem_filter mem)) (by simp)
  have inDue {timer : Timer × Nat × Nat} (mem : timer ∈
      (engine.timers.filter fun timer => timer.2.2 ≤ now).insertionSort
        fun a b => a.2.2 < b.2.2 ∨ a.2.2 = b.2.2 ∧ a.2.1 ≤ b.2.1) :
      timer ∈ engine.timers ∧ timer.2.2 ≤ now := by
    rw [mem_insertionSort] at mem
    obtain ⟨set, reached⟩ := mem_filter.mp mem
    exact ⟨set, of_decide_eq_true reached⟩
  have fired := paces_fireAll le order now engine.round (fun timer mem => waits timer (inDue mem).1)
    (fun timer mem isPrecommit here => by
      obtain ⟨kind, round, deadline⟩ := timer
      obtain rfl : kind = .precommit := isPrecommit
      obtain rfl : round = engine.round := here
      exact next deadline (inDue mem).2 (inDue mem).1) drained.calm (le_refl _)
  exact drained.trans (fired.trans (paces_progress fired.calm le order now))

theorem paces_start (calm : engine.Calm faulty top) (le : top ≤ bound) (order : IterOrder) (now : Nat) :
    Paces faulty top bound engine (engine.start order now).1 (engine.start order now).2 := by
  unfold start
  split
  case isTrue => exact .refl calm
  case isFalse =>
  have begun : Paces faulty top bound engine { engine with started := true } [] :=
    paces_within calm rfl rfl rfl (fun _ => Or.inl) (by simp)
  have again := begun.trans (paces_startRound begun.calm now calm.small.1 (le_refl _)
    (le_max_left _ _))
  dsimp only
  repeat' split
  any_goals exact again.trans (paces_progress again.calm le order now)
  · have armed := begun.trans (paces_arm begun.calm .prevote now)
    exact armed.trans (paces_progress armed.calm le order now)
  · have armed := begun.trans (paces_arm begun.calm .precommit now)
    exact armed.trans (paces_progress armed.calm le order now)
  · exact begun.trans (paces_progress begun.calm le order now)

/-- A message that a call hands over was sent by a faulty member or in a round up to the top. -/
def HeardUpTo (faulty : Finset Nat) (n top : Nat) : Call → Prop
  | .onProposal round sender _ _ _ =>
    round ≤ maxU32 ∧ (sender < n → sender ∈ faulty ∨ round ≤ top)
  | .onVote _ round voter _ => round ≤ maxU32 ∧ (voter < n → voter ∈ faulty ∨ round ≤ top)
  | _ => True

variable {made : Call}

theorem HeardUpTo.of_from {n member round : Nat} (heard : HeardUpTo faulty n top made)
    (told : made.From member round) :
    round ≤ maxU32 ∧ (member < n → member ∈ faulty ∨ round ≤ top) := by
  cases made with
  | onProposal | onVote =>
    obtain ⟨rfl, rfl⟩ := told
    exact heard
  | start | onValue | tick => exact told.elim

theorem paces_call (calm : engine.Calm faulty top) (waits : engine.WaitsBelow) (le : top ≤ bound)
    (order : IterOrder) (now : Nat) (heard : HeardUpTo faulty engine.n top made)
    (next : made = .tick → ∀ deadline ≤ now,
      (Timer.precommit, engine.round, deadline) ∈ engine.timers → engine.round + 1 ≤ bound) :
    Paces faulty top bound engine (made.run order now engine).1 (made.run order now engine).2 := by
  obtain ⟨proposals, validity, highest, prevotes, precommits, same, told⟩ := made.heard_eq engine
  have taken : (made.heard engine).Calm faulty top := by
    rw [same]
    refine ⟨⟨calm.small.1, fun found => ?_⟩, calm.few, fun found => ?_⟩
    · exact (told _ _ found).elim (fun new => (heard.of_from new.1).1) calm.small.2
    · exact (told _ _ found).elim (fun new => (heard.of_from new.1).2 new.2) calm.heard
  have first : Paces faulty top bound engine (made.heard engine) [] := by
    rw [same] at taken ⊢
    exact ⟨le_refl _, le_max_left _ _, taken, id, by simp⟩
  have whole := first.trans (paces_progress taken le order now)
  cases made with
  | start => exact paces_start calm le order now
  | onProposal | onValue | onVote => exact whole
  | tick => exact paces_tick calm waits le order now (next rfl)

end

/-- An engine that is rebuilt has heard nobody and waits for nothing. -/
theorem rebuild_fresh (height n : Nat) (me : Option Nat) (timeouts : Timeouts)
    (carried : Option ValueId) (saved : Option Saved) :
    (rebuild height n me timeouts carried saved).highest = ∅ ∧
      (rebuild height n me timeouts carried saved).timers = [] ∧
      ((rebuild height n me timeouts carried saved).round = 0 ∨ ∃ state, saved = some state ∧
          (rebuild height n me timeouts carried saved).round = state.round) := by
  obtain ⟨bound, same⟩ := rebuild_eq height n me timeouts carried saved
  rw [same]
  cases saved with
  | none => exact ⟨rfl, rfl, Or.inl rfl⟩
  | some state =>
    change (restore _ state).highest = ∅ ∧ (restore _ state).timers = [] ∧
      ((restore _ state).round = 0 ∨ ∃ other, some state = some other ∧
        (restore _ state).round = other.round)
    unfold restore
    split
    · exact ⟨rfl, rfl, Or.inl rfl⟩
    obtain ⟨sent, prevotes, precommits, restored⟩ := foldl_restoreVote_eq
      { new height n me timeouts with
        round := state.round, step := state.step, locked := state.locked, valid := state.valid }
      state.sent
    dsimp only
    rw [restored]
    exact ⟨rfl, rfl, Or.inr ⟨state, rfl, rfl⟩⟩

end Tendermint

/-! ## The committee -/

/-- The highest round that a correct member is in. -/
def System.topRound (setting : Setting) (system : System) : Nat :=
  (Finset.range setting.n \ setting.faulty).sup fun seat => (system (.member seat)).engine.round

/-- The highest round that a correct member has entered on the way through some events. -/
def System.highestEntered (setting : Setting) (system : System) : List Event → Nat
  | [] => system.topRound setting
  | event :: rest =>
    max (system.topRound setting) ((system.step setting event).highestEntered setting rest)

/-- One member, where no correct member has entered a round above the top. -/
structure NodeState.Paced (setting : Setting) (top : Nat) (node : NodeState) : Prop where
  size : node.engine.n = setting.n
  calm : node.engine.Calm setting.faulty top
  waits : node.engine.WaitsBelow
  round : node.engine.round ≤ top
  disk : ∀ {saved}, node.disk = some saved → saved.round ≤ top ∧ saved.round ≤ maxU32
  queue : ∀ entry ∈ node.queue, entry.1.spokenIn ≤ top ∧ entry.2.round ≤ top ∧ entry.2.round ≤ maxU32
  released : ∀ action ∈ node.released, action.spokenIn ≤ top

variable (setting : Setting)

/-- A member that starts again is in the round it had saved. -/
theorem rebuild_paced (seat : Nat) (timeouts : Timeouts) {top : Nat}
    {disk : Option Saved}
    (stored : ∀ {saved}, disk = some saved → saved.round ≤ top ∧ saved.round ≤ maxU32) :
    let engine :=
      Tendermint.rebuild setting.height setting.n (some seat) timeouts setting.carried disk
    engine.n = setting.n ∧ engine.Calm setting.faulty top ∧ engine.WaitsBelow ∧ engine.round ≤ top := by
  intro engine
  obtain ⟨heard, timers, round⟩ := Tendermint.rebuild_fresh setting.height setting.n (some seat)
    timeouts setting.carried disk
  obtain ⟨-, size, -⟩ := Tendermint.rebuild_seat setting.height setting.n (some seat) timeouts
    setting.carried disk
  have small : engine.round ≤ top ∧ engine.round ≤ maxU32 := by
    rcases round with first | ⟨saved, isStored, again⟩
    · exact ⟨first ▸ zero_le _, first ▸ zero_le _⟩
    · exact again ▸ stored isStored
  have nobody {member spoken : Nat} (found : engine.highest.lookup member = some spoken) : False := by
    rw [heard] at found
    cases found
  refine ⟨size, ⟨⟨small.2, fun found => (nobody found).elim⟩, ?_, fun found => (nobody found).elim⟩,
    ?_, small.1⟩
  · rw [size]
    exact setting.few
  · intro timer mem
    rw [timers] at mem
    cases mem

def System.Paced (setting : Setting) (top : Nat) (system : System) : Prop :=
  ∀ seat, setting.Correct (.member seat) → (system (.member seat)).Paced setting top

namespace NodeState.Paced

variable {setting} {top more : Nat} {node : NodeState}

section

variable (paced : node.Paced setting top)

include paced

theorem mono (le : top ≤ more) : node.Paced setting more where
  size := paced.size
  calm := paced.calm.mono le
  waits := paced.waits
  round := paced.round.trans le
  disk found := ⟨(paced.disk found).1.trans le, (paced.disk found).2⟩
  queue entry mem := by
    obtain ⟨spoken, saved, u32⟩ := paced.queue entry mem
    exact ⟨spoken.trans le, saved.trans le, u32⟩
  released action mem := (paced.released action mem).trans le

/-- A call takes the member to the bound at most, and the rest follows the round it reaches. -/
theorem call {bound : Nat} (le : top ≤ bound) (order : IterOrder) (now : Nat)
    (heard : Tendermint.HeardUpTo setting.faulty setting.n top made)
    (next : made = .tick → ∀ deadline ≤ now,
      (Timer.precommit, node.engine.round, deadline) ∈ node.engine.timers →
        node.engine.round + 1 ≤ bound) :
    (node.call order now made).engine.round ≤ bound ∧
      (node.call order now made).Paced setting (max top (node.call order now made).engine.round) := by
  have paces := Tendermint.paces_call paced.calm paced.waits le order now (paced.size ▸ heard) next
  have u32 : made.Small := by
    cases made with
    | onProposal | onVote => exact heard.1
    | _ => trivial
  have size := (Member.moves_call node.engine order now u32).seat.2.1.trans paced.size
  have within := paces.within
  have before := paced.round
  refine ⟨by change (made.run order now node.engine).1.round ≤ bound; omega, ?_⟩
  exact
    { size := size
      calm := paces.calm.mono (le_max_left _ _)
      waits := paces.waits paced.waits
      round := le_max_right _ _
      disk := fun found => ⟨(paced.disk found).1.trans (le_max_left _ _), (paced.disk found).2⟩
      queue := by
        intro entry mem
        rcases mem_append.mp mem with old | new
        · exact (paced.mono (le_max_left _ _)).queue entry old
        · obtain ⟨action, emitted, rfl⟩ := mem_map.mp new
          exact ⟨(paces.spoken action emitted).trans (le_max_right _ _), le_max_right _ _,
            paces.calm.small.1⟩
      released := fun action mem => (paced.released action mem).trans (le_max_left _ _) }

theorem release : node.release.Paced setting top := by
  unfold NodeState.release
  split
  case h_1 => exact paced
  case h_2 action saved rest queue =>
  have first := paced.queue (action, saved) (by simp [queue])
  refine { paced with disk := ?_, queue := ?_, released := ?_ }
  · intro found stored
    cases action with
    | vote =>
      cases stored
      exact first.2
    | propose | decide => exact paced.disk stored
  · exact fun entry mem => paced.queue entry (by simp [queue, mem])
  · exact forall_mem_append.mpr ⟨paced.released, forall_mem_singleton.mpr first.1⟩

theorem crash (seat : Nat) (timeouts : Timeouts) :
    (node.crash setting seat timeouts).Paced setting top := by
  obtain ⟨size, calm, waits, round⟩ := rebuild_paced setting seat timeouts paced.disk
  exact { paced with size, calm, waits, round, queue := nofun }

end

end NodeState.Paced

/-- The event is a tick of a member in the given round, after its wait for the precommits of that
round has run out. -/
def System.TimesOut (setting : Setting) (system : System) (round : Nat) (event : Event) : Prop :=
  ∃ seat order now deadline, event = .call (.member seat) order now .tick ∧
    setting.Correct (.member seat) ∧ (system (.member seat)).engine.round = round ∧
    (Timer.precommit, round, deadline) ∈ (system (.member seat)).engine.timers ∧ deadline ≤ now

namespace System.Paced

variable {setting} {top : Nat} {system : System}

section

variable (paced : system.Paced setting top) {event : Event}

include paced

theorem topRound_le : system.topRound setting ≤ top := by
  refine Finset.sup_le fun seat mem => ?_
  obtain ⟨inside, correct⟩ := mem_sdiff.mp mem
  exact (paced seat ⟨Finset.mem_range.mp inside, correct⟩).round

theorem heardUpTo (authentic : made.Authentic setting system) :
    Tendermint.HeardUpTo setting.faulty setting.n top made := by
  cases made with
  | onProposal round sender value polRound valid =>
    refine ⟨authentic.1, fun inside => ?_⟩
    by_cases faulty : sender ∈ setting.faulty
    · exact Or.inl faulty
    · have released := (paced sender ⟨inside, faulty⟩).released
      rcases authentic.2 inside with isFaulty | sent | sent
      · exact absurd isFaulty faulty
      · exact Or.inr (released _ sent)
      · exact Or.inr (released _ sent)
  | onVote kind round voter value =>
    refine ⟨authentic.1, fun inside => ?_⟩
    by_cases faulty : voter ∈ setting.faulty
    · exact Or.inl faulty
    · rcases authentic.2 inside with isFaulty | sent
      · exact absurd isFaulty faulty
      · exact Or.inr ((paced voter ⟨inside, faulty⟩).released _ sent)
  | start | onValue | tick => trivial

/-- One event takes a member to the next round at most, and only by running out of time. -/
theorem member_step (allowed : event.Allowed setting system) {seat : Nat}
    (correct : setting.Correct (.member seat)) :
    (system.step setting event (.member seat)).Paced setting
        (max top (system.step setting event (.member seat)).engine.round) ∧
      (system.step setting event (.member seat)).engine.round ≤ top + 1 ∧
      (top < (system.step setting event (.member seat)).engine.round →
        system.TimesOut setting top event) := by
  have still {node : NodeState} (pacedNode : node.Paced setting top) :
      node.Paced setting (max top node.engine.round) ∧ node.engine.round ≤ top + 1 ∧
        (top < node.engine.round → system.TimesOut setting top event) := by
    refine ⟨pacedNode.mono (le_max_left _ _), le_succ_of_le pacedNode.round, fun higher => ?_⟩
    exact absurd higher (not_lt.mpr pacedNode.round)
  have before := paced seat correct
  by_cases here : event.node = .member seat
  · rw [System.step, here, Function.update_self]
    cases event with
    | release => exact still before.release
    | crash other timeouts => exact still (before.crash other timeouts)
    | call node order now made =>
      obtain rfl : node = .member seat := here
      have heard := paced.heardUpTo allowed.2
      by_cases timesOut : system.TimesOut setting top (.call (.member seat) order now made)
      · obtain ⟨within, after⟩ := before.call (le_succ top) order now heard
          fun _ _ _ _ => succ_le_succ before.round
        exact ⟨after, within, fun _ => timesOut⟩
      -- Without a timeout in the highest round, the member stays at or below it.
      obtain ⟨within, after⟩ := before.call (le_refl top) order now heard (by
        rintro rfl deadline reached armed
        have below := before.round
        rcases lt_or_eq_of_le below with lower | same
        · exact lower
        · refine absurd ⟨seat, order, now, deadline, rfl, correct, same, ?_, reached⟩ timesOut
          rw [← same]
          exact armed)
      exact ⟨after, le_succ_of_le within, fun higher => absurd within (not_le.mpr higher)⟩
  · rw [System.step, Function.update_of_ne (Ne.symm here)]
    exact still before

theorem step (allowed : event.Allowed setting system) :
    (system.step setting event).Paced setting (max top ((system.step setting event).topRound setting)) ∧
      (system.step setting event).topRound setting ≤ top + 1 ∧
      (top < (system.step setting event).topRound setting → system.TimesOut setting top event) := by
  have member {seat : Nat} (mem : seat ∈ Finset.range setting.n \ setting.faulty) :
      setting.Correct (.member seat) := by
    obtain ⟨inside, correct⟩ := mem_sdiff.mp mem
    exact ⟨Finset.mem_range.mp inside, correct⟩
  refine ⟨fun seat correct => ?_, Finset.sup_le fun seat mem => ?_, fun higher => ?_⟩
  · have inside := Finset.mem_sdiff.mpr ⟨Finset.mem_range.mpr correct.1, correct.2⟩
    have reached :=
      le_sup (f := fun seat => (system.step setting event (.member seat)).engine.round) inside
    exact (paced.member_step allowed correct).1.mono (max_le_max_left top reached)
  · exact (paced.member_step allowed (member mem)).2.1
  · obtain ⟨seat, mem, above⟩ := Finset.lt_sup_iff.mp higher
    exact (paced.member_step allowed (member mem)).2.2 above

variable {events : List Event}

theorem run {final : System} (ran : system.run setting events = some final) :
    final.Paced setting (max top (system.highestEntered setting events)) := by
  induction events generalizing system top with
  | nil =>
    cases ran
    exact fun seat correct => (paced seat correct).mono (le_max_left _ _)
  | cons event rest ih =>
    obtain ⟨allowed, ran⟩ := Option.ite_none_right_eq_some.mp ran
    have after := ih (paced.step allowed).1 ran
    have start := paced.topRound_le
    have first : (system.step setting event).topRound setting ≤
        (system.step setting event).highestEntered setting rest := by
      cases rest with
      | nil => exact le_refl _
      | cons => exact le_max_left _ _
    have same : max (max top ((system.step setting event).topRound setting))
        ((system.step setting event).highestEntered setting rest) =
        max top (system.highestEntered setting (event :: rest)) := by
      rw [show system.highestEntered setting _ = max _ _ from rfl]
      omega
    rw [← same]
    exact after

end

end System.Paced

theorem System.initial_paced (timeouts : Node → Timeouts) :
    (System.initial setting timeouts).Paced setting 0 := by
  intro seat correct
  obtain ⟨size, calm, waits, round⟩ := @rebuild_paced _ _ _ 0 none (nofun)
  exact
    { size, calm, waits, round
      disk := nofun
      queue := nofun
      released := nofun }

theorem System.highestEntered_append {setting : Setting} {system final : System}
    (ran : system.run setting events = some final) (event : Event) :
    system.highestEntered setting (events ++ [event]) =
      max (system.highestEntered setting events) ((final.step setting event).topRound setting) := by
  induction events generalizing system with
  | nil =>
    cases ran
    rfl
  | cons first rest ih =>
    obtain ⟨-, ran⟩ := Option.ite_none_right_eq_some.mp ran
    rw [cons_append, System.highestEntered, ih ran, System.highestEntered, max_assoc]

/-- A step of the system takes the highest round that a correct member has entered up by one at
most, and only if a correct member in that round ticks after its wait for precommits there. -/
theorem rounds_rise_by_timeouts (setting : Setting) (timeouts : Node → Timeouts)
    (events : List Event) (event : Event) (system : System)
    (ran : (System.initial setting timeouts).run setting events = some system)
    (allowed : event.Allowed setting system) :
    let entered := (System.initial setting timeouts).highestEntered setting
    entered (events ++ [event]) = entered events ∨ entered (events ++ [event]) = entered events + 1 ∧
        system.TimesOut setting (entered events) event := by
  intro entered
  have paced : system.Paced setting (entered events) := by
    have reached := (System.initial_paced setting timeouts).run ran
    rwa [Nat.zero_max] at reached
  obtain ⟨-, within, timesOut⟩ := paced.step allowed
  have after : entered (events ++ [event]) = max (entered events) ((system.step setting event).topRound
    setting) := System.highestEntered_append ran event
  rw [after]
  by_cases higher : entered events < (system.step setting event).topRound setting
  · exact Or.inr ⟨by omega, timesOut higher⟩
  · exact Or.inl (by omega)

/-- A committee of one. -/
def loneSetting : Setting where
  height := 0
  n := 1
  faulty := ∅
  few := none_few
  carried := none

/-- The only member hears of no proposal and waits until its first timer is due. -/
def loneEvents : List Event :=
  [.call (.member 0) .inserted 0 .start, .call (.member 0) .inserted 15000 .tick]

theorem lone_member_times_out :
    ∃ system, (System.initial loneSetting fun _ => {}).run loneSetting loneEvents = some system ∧
      system.TimesOut loneSetting 0 (.call (.member 0) .inserted 18000 .tick) := by
  have runs : ((System.initial loneSetting fun _ => {}).run loneSetting loneEvents).isSome := by
    decide
  obtain ⟨system, ran⟩ := Option.isSome_iff_exists.mp runs
  refine ⟨system, ran, ?_⟩
  have rises := rounds_rise_by_timeouts loneSetting (fun _ => {}) loneEvents
    (.call (.member 0) .inserted 18000 .tick) system ran ⟨⟨by decide, by decide⟩, trivial⟩
  exact rises.elim (fun same => absurd same (by decide)) And.right

end EgoChain.Consensus
