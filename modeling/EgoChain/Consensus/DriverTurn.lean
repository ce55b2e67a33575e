import EgoChain.Consensus.DriverRun
import EgoChain.Consensus.EngineBinding
import EgoChain.Consensus.EngineCost

/-!
# One turn of a driver

A call of the engine and the queue of actions behind it, seen from outside: the
engine has made some moves, the votes among its actions are signed unless the
node has given up, and the vote record holds them.
-/

namespace EgoChain.Consensus

open EgoChain.Foundations Option List
open EgoChain.Foundations.LockVoting (Committee)

/-! ## What reaches the engines -/

namespace HeightSetting

variable (setting : HeightSetting) (value : ValueId)

/-- The value of the empty text.  A vote for nothing is signed with the same bytes. -/
def Blank : Prop := value = setting.valueId []

instance decidableBlank (setting : HeightSetting) (value : ValueId) : Decidable (setting.Blank value) :=
  inferInstanceAs (Decidable (value = setting.valueId []))

/-- What a node takes for valid: when nobody is faulty, never the blank value. -/
def Accepts : Prop :=
  setting.faulty = [] → ¬ setting.Blank value

/-- The text stands for the value of a vote. -/
def Spells (value : Option ValueId) (text : Text) : Prop :=
  match value with
  | none => text = []
  | some v => setting.valueId text = v

/-- The votes of one attempt for which there is a signature. -/
def heardBy (made : Signature → Prop) (attempt : Nat) : Heard :=
  fun kind round seat value => ∀ v, value = some v → ∃ members address text,
    setting.committeeForAttempt attempt = some members ∧
      members.idxOf? address = some seat ∧ setting.valueId text = v ∧
      made ⟨address, .vote attempt kind setting.height round text⟩

end HeightSetting

/-- The seats of a committee.  The votes of faulty members count as heard, so none of
the seats is set apart. -/
def seats (n : Nat) : Committee Nat := committeeOf n ∅ (by simp)

def HeightSetting.world (setting : HeightSetting) (made : Signature → Prop) (attempt n : Nat) :
    World :=
  worldOf (seats n) setting.Blank (setting.heardBy made attempt) setting.Accepts

theorem HeightSetting.heardBy_mono {setting : HeightSetting} {made more : Signature → Prop}
    (grows : ∀ sig, made sig → more sig) (attempt : Nat) (kind : VoteKind) (round seat : Nat)
    (value : Option ValueId) (heard : setting.heardBy made attempt kind round seat value) :
    setting.heardBy more attempt kind round seat value := by
  intro v same
  obtain ⟨members, address, text, seated, place, spelled, signed⟩ := heard v same
  exact ⟨members, address, text, seated, place, spelled, grows _ signed⟩

/-- The attempt a vote or a give-up belongs to. -/
def Message.spokenAt : Message → Option Nat
  | .vote attempt _ _ _ _ => some attempt
  | .proposal _ _ _ _ _ => none
  | .skip _ attempt _ => some attempt
  | .skipV2 _ attempt _ => some attempt

/-- The world that the engine of a session runs in. -/
abbrev Session.world (session : Session) (setting : HeightSetting) (made : Signature → Prop) : World :=
  setting.world made session.attempt session.members.length

/-! ## What the driver's tables hold -/

structure SamePlace (before after : Driver) : Prop where
  attempt : after.attempt = before.attempt
  skips : after.skips = before.skips
  members : after.members = before.members
  miners : after.miners = before.miners
  me : after.me = before.me
  carried : after.carried = before.carried
  gaveUp : after.gaveUp = before.gaveUp

theorem SamePlace.refl (driver : Driver) : SamePlace driver driver :=
  ⟨rfl, rfl, rfl, rfl, rfl, rfl, rfl⟩

theorem SamePlace.trans {first second third : Driver} (left : SamePlace first second)
    (right : SamePlace second third) : SamePlace first third :=
  ⟨right.attempt.trans left.attempt, right.skips.trans left.skips,
    right.members.trans left.members, right.miners.trans left.miners, right.me.trans left.me,
    right.carried.trans left.carried, right.gaveUp.trans left.gaveUp⟩

/-- The names, blocks, verdicts and signatures a driver keeps are what they stand for. -/
structure Session.Tables (setting : HeightSetting) (made : Signature → Prop)
    (session : Session) : Prop where
  names : ∀ {value text}, session.names.lookup value = some text → setting.valueId text = value
  payloads : ∀ {value block}, session.payloads.lookup value = some block →
    setting.valueId block.hash = value
  verdicts : ∀ {value}, session.verdicts.lookup value = some true → setting.Accepts value
  checks : ∀ check ∈ session.checks, setting.valueId check.block.hash = check.value
  waiting : ∀ waiting ∈ session.waiting, waiting.round ≤ maxU32
  sigs : ∀ {key kept seat sig}, session.sigs.lookup key = some kept →
    kept.lookup seat = some sig → made sig
  precommits : ∀ {round value kept seat sig},
    session.sigs.lookup (.precommit, round, value) = some kept → kept.lookup seat = some sig →
    ∃ voter text, session.members.idxOf? voter = some seat ∧ setting.valueId text = value ∧
      sig = ⟨voter, .vote session.attempt .precommit setting.height round text⟩
  lockPol : ∀ {lock}, session.lockPol = some lock →
    lock.attempt = (if compactSkip session.attempt then some session.attempt else none) ∧
      ∀ sig ∈ lock.sigs, made sig
  carried : ∀ {lock}, session.carried = some lock → ∀ sig ∈ lock.sigs, made sig
  decided : ∀ {round value}, session.decided = some (round, value) → setting.Accepts value
  gaveUp : ∀ {vote}, session.gaveUp = some vote → ∀ sig ∈ vote.sigs, made sig
  giveUps : ∀ {voter vote}, session.giveUps.lookup voter = some vote → ∀ sig ∈ vote.sigs, made sig
  ahead : ∀ {attempt votes}, session.ahead.lookup attempt = some votes →
    attempt ≤ maxU32 ∧ ∀ {voter vote}, votes.lookup voter = some vote → ∀ sig ∈ vote.sigs, made sig

namespace Session

variable {setting : HeightSetting} {address : Address} {made more : Signature → Prop}
  {session : Session} {seat round n : Nat} {before middle : Session} {joins : List Action}

theorem lookup_addSig {sigs : KeyedMap SigKey (KeyedMap Nat Signature)} {key other : SigKey}
    {member : Nat} {sig found : Signature} {kept : KeyedMap Nat Signature}
    (there : (addSig sigs key member sig).lookup other = some kept)
    (inside : kept.lookup seat = some found) :
    (other = key ∧ seat = member ∧ found = sig) ∨
      ∃ old, sigs.lookup other = some old ∧ old.lookup seat = some found := by
  rcases KeyedMap.lookup_of_insert there with ⟨rfl, rfl⟩ | before
  · rcases KeyedMap.lookup_of_insert inside with ⟨rfl, rfl⟩ | within
    · exact Or.inl ⟨rfl, rfl, rfl⟩
    · cases before : sigs.lookup other with
      | some old =>
        rw [before] at within
        exact Or.inr ⟨old, rfl, within⟩
      | none =>
        rw [before] at within
        cases within
  · exact Or.inr ⟨kept, before, inside⟩

/-- The vote a node signs is one of the current attempt and spells its value. -/
theorem signVote_eq (setting : HeightSetting) (address : Address) (session : Session)
    (kind : VoteKind) (round : Nat) (value : Option ValueId) :
    ∃ sigs, session.signVote setting address kind round value = { session with
        sigs := sigs
        signed := session.signed ++ [.vote session.attempt kind setting.height round
          ((value.map session.nameOf).getD [])] } :=
  ⟨_, rfl⟩

variable (tables : session.Tables setting made)

include tables

theorem Tables.mono (grows : ∀ sig, made sig → more sig) : session.Tables setting more :=
  { tables with
    sigs := fun found there => grows _ (tables.sigs found there)
    lockPol := fun found =>
      ⟨(tables.lockPol found).1, fun sig mem => grows sig ((tables.lockPol found).2 sig mem)⟩
    carried := fun found sig mem => grows sig (tables.carried found sig mem)
    gaveUp := fun found sig mem => grows sig (tables.gaveUp found sig mem)
    giveUps := fun found sig mem => grows sig (tables.giveUps found sig mem)
    ahead := fun found => ⟨(tables.ahead found).1,
      fun there sig mem => grows sig ((tables.ahead found).2 there sig mem)⟩ }

theorem Tables.spells_nameOf (value : ValueId) : setting.valueId (session.nameOf value) = value := by
  unfold Driver.nameOf
  cases known : session.names.lookup value with
  | some text => exact tables.names known
  | none => exact tmValueId_hexEncode setting.blake3 value

theorem Tables.spells (value : Option ValueId) :
    setting.Spells value ((value.map session.nameOf).getD []) := by
  cases value with
  | none => rfl
  | some v => exact tables.spells_nameOf v

/-- Keeping one more signature. -/
theorem Tables.addSig (key : SigKey) (member : Nat) {sig : Signature} (signed : made sig)
    (precommit : key.1 = .precommit → ∃ voter text, session.members.idxOf? voter = some member ∧
      setting.valueId text = key.2.2 ∧
      sig = ⟨voter, .vote session.attempt .precommit setting.height key.2.1 text⟩) :
    { session with sigs := addSig session.sigs key member sig }.Tables setting made :=
  { tables with
    sigs := by
      intro other kept seat found there inside
      rcases lookup_addSig there inside with ⟨-, -, rfl⟩ | ⟨old, before, within⟩
      · exact signed
      · exact tables.sigs before within
    precommits := by
      intro round value kept seat found there inside
      rcases lookup_addSig there inside with ⟨rfl, rfl, rfl⟩ | ⟨old, before, within⟩
      · exact precommit rfl
      · exact tables.precommits before within }

theorem Tables.signVote
    (seated : ∀ {seat}, session.me = some seat → session.members.idxOf? address = some seat)
    (kind : VoteKind) (round : Nat) (value : Option ValueId)
    (signed : made ⟨address, session.voteMessage setting kind round value⟩) :
    (session.signVote setting address kind round value).Tables setting made := by
  unfold Session.signVote
  split
  case h_2 => exact { tables with }
  case h_1 v seat sat =>
  have added := tables.addSig (kind, round, v) seat signed (by
    rintro rfl
    exact ⟨address, session.nameOf v, seated sat, tables.spells_nameOf v, rfl⟩)
  exact { added with }

omit tables

/-! ## The queue of actions -/

/-- What carrying out one action does. -/
structure Acted (setting : HeightSetting) (world : World) (silent : Bool) (before : Session)
    (action : Action) (after : Session) (voted : Bool) (joins : List Action) : Prop where
  moves : Moves world before.engine after.engine joins
  place : SamePlace before.toDriver after.toDriver
  wal : after.wal = before.wal
  kept : ∀ message ∈ before.signed, message ∈ after.signed
  spoke : ∀ message ∈ after.signed, message ∈ before.signed ∨ message.spokenAt = none ∨
    silent = false ∧ ∃ kind round value text, action = .vote kind round value ∧
      setting.Spells value text ∧
      message = .vote before.attempt kind setting.height round text
  sent : silent = false → ∀ kind round value, action = .vote kind round value →
    voted = true ∧ ∃ text, setting.Spells value text ∧
      .vote before.attempt kind setting.height round text ∈ after.signed
  decisions : ∀ decision ∈ after.decisions, decision ∈ before.decisions ∨
    ∃ round value, action = .decide round value ∧ decision = ⟨before.attempt, round, value, silent⟩
  cost : joins.length + after.engine.potential ≤ before.engine.potential

variable {silent : Bool} {after start : Session} {action : Action} {value : ValueId}
  {actions : List Action} {world : World}

/-- An action that changes neither the engine nor what was signed. -/
theorem Acted.quiet (engine : after.engine = before.engine)
    (place : SamePlace before.toDriver after.toDriver) (wal : after.wal = before.wal)
    (signed : after.signed = before.signed)
    (noVote : silent = false → ∀ kind round value, action ≠ .vote kind round value)
    (decisions : ∀ decision ∈ after.decisions, decision ∈ before.decisions ∨
      ∃ round value, action = .decide round value ∧ decision = ⟨before.attempt, round, value, silent⟩) :
    Acted setting world silent before action after false [] where
  moves := by
    rw [engine]
    exact .refl _
  place := place
  wal := wal
  kept message mem := by
    rw [signed]
    exact mem
  spoke message mem := by
    rw [signed] at mem
    exact Or.inl mem
  sent loud kind round value same := absurd same (noVote loud kind round value)
  decisions := decisions
  cost := by
    rw [engine]
    simp

variable (order : IterOrder) (now : Nat)

/-- Only a member that has the block offers it. -/
theorem offer_cases (round : Nat) (polRound : Option Nat) (value : ValueId) :
    session.offer setting order now round polRound value = (session, []) ∨
      ∃ seat message, session.me = some seat ∧ message.spokenAt = none ∧
        session.offer setting order now round polRound value = ({ session with
            engine := (session.engine.onProposal order now round seat value polRound true).1
            signed := session.signed ++ [message] },
          (session.engine.onProposal order now round seat value polRound true).2) := by
  unfold offer
  split
  case h_1 seat block sat found => exact Or.inr ⟨seat, _, sat, rfl, rfl⟩
  case h_2 => exact Or.inl rfl

theorem offer_acted {polRound : Option Nat}
    (reached : session.me ≠ none → round ≤ session.engine.round ∧ round ≤ maxU32)
    (approved : setting.Accepts value) :
    Acted setting (setting.world made session.attempt n) silent session
      (.propose round polRound (some value))
      (session.offer setting order now round polRound value).1 false
      (session.offer setting order now round polRound value).2 := by
  rcases offer_cases order now round polRound value with same | ⟨seat, message, sat, unspoken, same⟩
  · rw [same]
    exact Acted.quiet rfl (SamePlace.refl _) rfl rfl (by simp) fun _ => Or.inl
  obtain ⟨atMost, small⟩ := reached (by simp [sat])
  have cost := Tendermint.onProposal_cost order now seat value polRound true atMost
  rw [same]
  refine
    { moves := session.engine.moves_onProposal _ order now round seat value polRound true small
        fun _ => approved
      place := ⟨rfl, rfl, rfl, rfl, rfl, rfl, rfl⟩
      wal := rfl
      kept := fun _ => mem_append_left _
      spoke := ?spoke
      sent := by simp
      decisions := fun _ => Or.inl
      cost := cost }
  case spoke =>
    exact forall_mem_append.mpr ⟨fun _ => Or.inl, forall_mem_singleton.mpr (Or.inr (Or.inl unspoken))⟩

include tables in
theorem act_acted (reached : session.me ≠ none → ∀ round polRound value,
      action = .propose round polRound value → round ≤ session.engine.round ∧ round ≤ maxU32)
    (fits : action.Fits setting.Accepts) :
    Acted setting (setting.world made session.attempt n) silent session action
      (session.act setting address order now silent action).1
      (session.act setting address order now silent action).2.1
      (session.act setting address order now silent action).2.2 := by
  cases action with
  | propose round polRound value =>
    cases silent with
    | true => exact Acted.quiet rfl (SamePlace.refl _) rfl rfl (by simp) fun _ => Or.inl
    | false =>
      cases value with
      | none =>
        exact Acted.quiet rfl ⟨rfl, rfl, rfl, rfl, rfl, rfl, rfl⟩ rfl rfl (by simp) fun _ => Or.inl
      | some v =>
        exact offer_acted order now (fun member => reached member round polRound _ rfl) fits
  | vote kind round value =>
    cases silent with
    | true => exact Acted.quiet rfl (SamePlace.refl _) rfl rfl (by simp) fun _ => Or.inl
    | false =>
      obtain ⟨sigs, same⟩ := signVote_eq setting address session kind round value
      show Acted setting _ false session (.vote kind round value)
        (session.signVote setting address kind round value) true []
      rw [same]
      refine
        { moves := .refl _
          place := ⟨rfl, rfl, rfl, rfl, rfl, rfl, rfl⟩
          wal := rfl
          kept := fun _ => mem_append_left _
          spoke := ?spoke
          sent := ?sent
          decisions := fun _ => Or.inl
          cost := by simp }
      case spoke =>
        exact forall_mem_append.mpr ⟨fun _ => Or.inl, forall_mem_singleton.mpr
          (Or.inr (Or.inr ⟨rfl, kind, round, value, _, rfl, tables.spells value, rfl⟩))⟩
      case sent =>
        intro _ k r v sameVote
        obtain ⟨rfl, rfl, rfl⟩ := Action.vote.inj sameVote
        exact ⟨rfl, _, tables.spells value, by simp⟩
  | decide round value =>
    exact Acted.quiet rfl ⟨rfl, rfl, rfl, rfl, rfl, rfl, rfl⟩ rfl rfl (by simp) (forall_mem_append.mpr
      ⟨fun _ => Or.inl, forall_mem_singleton.mpr (Or.inr ⟨round, value, rfl, rfl⟩)⟩)

include tables in
theorem Tables.act (fits : action.Fits setting.Accepts)
    (seated : ∀ {seat}, session.me = some seat → session.members.idxOf? address = some seat)
    (own : ∀ message ∈ (session.act setting address order now silent action).1.signed,
      made ⟨address, message⟩) :
    (session.act setting address order now silent action).1.Tables setting made := by
  cases action with
  | propose round polRound value =>
    cases silent with
    | true => exact tables
    | false =>
      cases value with
      | none => exact { tables with }
      | some v =>
        show (session.offer setting order now round polRound v).1.Tables setting made
        rcases offer_cases order now round polRound v with same | ⟨seat, message, -, -, same⟩ <;>
          rw [same]
        · exact tables
        · exact { tables with }
  | vote kind round value =>
    cases silent with
    | true => exact tables
    | false =>
      refine tables.signVote seated kind round value (own _ ?_)
      exact mem_append_right _ mem_cons_self
  | decide round value =>
    exact { tables with decided := fun same => by cases same; exact fits }

/-- What carrying out a whole queue does. -/
structure Drained (setting : HeightSetting) (world : World) (silent : Bool) (before : Session)
    (queue : List Action) (after : Session) (voted : Bool) (out : List Action) : Prop where
  moves : Moves world before.engine after.engine out
  place : SamePlace before.toDriver after.toDriver
  wal : after.wal = before.wal
  kept : ∀ message ∈ before.signed, message ∈ after.signed
  spoke : ∀ message ∈ after.signed, message ∈ before.signed ∨ message.spokenAt = none ∨
    silent = false ∧ ∃ kind round value text, .vote kind round value ∈ queue ++ out ∧
      setting.Spells value text ∧
      message = .vote before.attempt kind setting.height round text
  sent : silent = false → ∀ kind round value, .vote kind round value ∈ queue ++ out →
    voted = true ∧ ∃ text, setting.Spells value text ∧
      .vote before.attempt kind setting.height round text ∈ after.signed
  decisions : ∀ decision ∈ after.decisions, decision ∈ before.decisions ∨
    ∃ round value, .decide round value ∈ queue ++ out ∧
      decision = ⟨before.attempt, round, value, silent⟩

theorem Drained.empty (before : Session) :
    Drained setting world silent before [] before false [] where
  moves := .refl _
  place := SamePlace.refl _
  wal := rfl
  kept _ := id
  spoke _ := Or.inl
  sent := nofun
  decisions _ := Or.inl

/-- One action and then the rest of the queue. -/
theorem Acted.then {first second : Bool} {rest out : List Action}
    (acted : Acted setting world silent before action middle first joins)
    (drained : Drained setting world silent middle (rest ++ joins) after second out) :
    Drained setting world silent before (action :: rest) after (first || second) (joins ++ out) := by
  have inWhole : ∀ {other}, other ∈ rest ++ joins ++ out → other ∈ action :: rest ++ (joins ++ out) := by
    intro other mem
    simp only [mem_append] at mem ⊢
    tauto
  have attempt := acted.place.attempt
  refine
    { moves := acted.moves.trans drained.moves
      place := acted.place.trans drained.place
      wal := drained.wal.trans acted.wal
      kept := fun message mem => drained.kept message (acted.kept message mem)
      spoke := ?spoke
      sent := ?sent
      decisions := ?decisions }
  case spoke =>
    intro message mem
    rcases drained.spoke message mem with earlier | silentMessage | ⟨loud, later⟩
    · rcases acted.spoke message earlier with old | silentMessage | ⟨loud, now⟩
      · exact Or.inl old
      · exact Or.inr (Or.inl silentMessage)
      · obtain ⟨kind, round, value, text, rfl, spelled, same⟩ := now
        exact Or.inr (Or.inr ⟨loud, kind, round, value, text, by simp, spelled, same⟩)
    · exact Or.inr (Or.inl silentMessage)
    · obtain ⟨kind, round, value, text, queued, spelled, same⟩ := later
      rw [attempt] at same
      exact Or.inr (Or.inr ⟨loud, kind, round, value, text, inWhole queued, spelled, same⟩)
  case sent =>
    intro loud kind round value mem
    have cases' : action = .vote kind round value ∨ .vote kind round value ∈ rest ++ joins ++ out := by
      simp only [mem_append, mem_cons] at mem ⊢
      tauto
    rcases cases' with rfl | later
    · obtain ⟨voted, text, spelled, signed⟩ := acted.sent loud kind round value rfl
      exact ⟨by simp [voted], text, spelled, drained.kept _ signed⟩
    · obtain ⟨voted, text, spelled, signed⟩ := drained.sent loud kind round value later
      rw [attempt] at signed
      exact ⟨by simp [voted], text, spelled, signed⟩
  case decisions =>
    intro decision mem
    rcases drained.decisions decision mem with earlier | ⟨round, value, queued, same⟩
    · rcases acted.decisions decision earlier with old | ⟨round, value, rfl, same⟩
      · exact Or.inl old
      · exact Or.inr ⟨round, value, by simp, same⟩
    · rw [attempt] at same
      exact Or.inr ⟨round, value, inWhole queued, same⟩

/-- The engine of a session is in order, as far as the signatures in hand show. -/
structure EngineFits (setting : HeightSetting) (address : Address) (made : Signature → Prop)
    (session : Session) : Prop where
  engineOk : session.engine.Ok (seats session.members.length) setting.Blank
    (setting.heardBy made session.attempt)
  bound : session.engine.Bound setting.Accepts
    (session.carried.map fun lock => setting.valueId lock.value)
  sameSeat : session.engine.me = session.me
  seated : ∀ {seat}, session.me = some seat → session.members.idxOf? address = some seat

theorem EngineFits.moves {out : List Action} (fits : before.EngineFits setting address made)
    (moves : Moves (before.world setting made) before.engine after.engine out)
    (place : SamePlace before.toDriver after.toDriver) : after.EngineFits setting address made := by
  have engineOk := fits.engineOk.moves moves
  have bound := fits.bound.moves moves
  have sameSeat := moves.seat.1.trans fits.sameSeat
  have seated := @EngineFits.seated _ _ _ _ fits
  rw [← place.members, ← place.attempt] at engineOk
  rw [← place.carried] at bound
  rw [← place.me] at sameSeat seated
  rw [← place.members] at seated
  exact ⟨engineOk, bound, sameSeat, seated⟩

variable {message : Message}

theorem mem_signed_act (mem : message ∈ session.signed) :
    message ∈ (session.act setting address order now silent action).1.signed := by
  cases action with
  | propose round polRound value =>
    cases silent with
    | true => exact mem
    | false =>
      cases value with
      | none => exact mem
      | some v =>
        show message ∈ (session.offer setting order now round polRound v).1.signed
        unfold offer
        split
        · exact mem_append_left _ mem
        · exact mem
  | vote kind round value =>
    cases silent with
    | true => exact mem
    | false => exact mem_append_left _ mem
  | decide round value => exact mem

theorem mem_signed_drain (fuel : Nat) (queue : List Action) (mem : message ∈ session.signed) :
    message ∈ (session.drain setting address order now silent fuel queue).1.signed := by
  induction fuel generalizing session queue with
  | zero => exact mem
  | succ fuel ih =>
    cases queue with
    | nil => exact mem
    | cons action rest => exact ih _ (mem_signed_act order now mem)

include tables in
/-- The queue runs empty, and the tables keep standing for what they say. -/
theorem drain_drained (silent : Bool) (fuel : Nat) {queue : List Action}
    (fits : session.EngineFits setting address made)
    (enough : queue.length + session.engine.potential ≤ fuel)
    (reached : session.me ≠ none → ∀ round polRound value,
      .propose round polRound value ∈ queue → round ≤ session.engine.round)
    (accepted : ∀ action ∈ queue, action.Fits setting.Accepts)
    (own : ∀ message ∈ (session.drain setting address order now silent fuel queue).1.signed,
      made ⟨address, message⟩) :
    ∃ out, Drained setting (session.world setting made) silent
        session queue (session.drain setting address order now silent fuel queue).1
        (session.drain setting address order now silent fuel queue).2 out ∧
      (session.drain setting address order now silent fuel queue).1.Tables setting made := by
  induction fuel generalizing session queue with
  | zero =>
    have empty : queue = [] := length_eq_zero_iff.mp (by omega)
    subst empty
    exact ⟨[], Drained.empty session, tables⟩
  | succ fuel ih =>
    cases queue with
    | nil => exact ⟨[], Drained.empty session, tables⟩
    | cons action rest =>
      have bounded := fun member => (fits.engineOk.remembers (fits.sameSeat ▸ member)).bounded
      have acted : Acted setting (session.world setting made) silent session action
          (session.act setting address order now silent action).1 _ _ :=
        act_acted tables order now (fun member round polRound value same =>
            have atRound := reached member round polRound value (by simp [same])
            ⟨atRound, atRound.trans (bounded member)⟩)
          (accepted action (by simp))
      have kept := tables.act order now (accepted action (by simp)) fits.seated
        fun message mem => own message (mem_signed_drain order now fuel _ mem)
      unfold drain at own ⊢
      rcases turn : session.act setting address order now silent action with
        ⟨middle, voted, joins⟩
      rw [turn] at acted kept own
      dsimp only at acted kept own ⊢
      have middleFits := fits.moves acted.moves acted.place
      have cost := acted.cost
      have shorter : (rest ++ joins).length + middle.engine.potential ≤ fuel := by
        simp only [length_append, length_cons] at enough ⊢
        omega
      have stillReached : middle.me ≠ none → ∀ round polRound value,
          .propose round polRound value ∈ rest ++ joins → round ≤ middle.engine.round := by
        intro member round polRound value mem
        rw [acted.place.me] at member
        obtain ⟨up, offered⟩ := Moves.reached fits.engineOk (fits.sameSeat ▸ member) acted.moves
        rcases mem_append.mp mem with old | new
        · exact (reached member round polRound value (by simp [old])).trans up
        · exact offered round polRound value new
      have stillAccepted : ∀ other ∈ rest ++ joins, other.Fits setting.Accepts :=
        forall_mem_append.mpr ⟨(forall_mem_cons.mp accepted).2, fits.bound.emitted acted.moves⟩
      obtain ⟨out, drained, last⟩ := ih kept middleFits shorter stillReached stillAccepted own
      rw [Session.world, acted.place.attempt] at drained
      exact ⟨joins ++ out, acted.then drained, last⟩

/-! ## Keeping the lock and the vote record -/

/-- The record `persist` writes. -/
structure Written (setting : HeightSetting) (session : Session) (wal : Wal) : Prop where
  tm : wal.tm = session.engine.saved
  parent : wal.parent = setting.parentHash
  attempt : wal.attempt = session.attempt
  skips : wal.skips = session.skips
  gaveUp : wal.gaveUp = session.gaveUp
  lockPol : wal.lockPol = session.lockPol

theorem persist_eq (setting : HeightSetting) (session : Session) :
    (session.me = none ∧ session.persist setting = session) ∨
      (session.me ≠ none ∧ ∃ wal, Written setting session wal ∧
        session.persist setting = { session with wal := some wal }) := by
  unfold persist
  cases sat : session.me with
  | none => exact Or.inl ⟨rfl, rfl⟩
  | some seat => exact Or.inr ⟨by simp, _, ⟨rfl, rfl, rfl, rfl, rfl, rfl⟩, rfl⟩

include tables in
/-- The lock a driver can prove names the value, and belongs to the current attempt. -/
theorem Tables.polFor {lock : TmLock} (found : session.polFor round value = some lock) :
    lock.round = round ∧ setting.valueId lock.value = value ∧
      lock.attempt = (if compactSkip session.attempt then some session.attempt else none) ∧
      ∀ sig ∈ lock.sigs, made sig := by
  unfold Driver.polFor at found
  split at found
  case h_1 => cases found
  case h_2 name known =>
  split at found
  case h_1 old kept =>
    cases found
    obtain ⟨there, same⟩ := filter_eq_some_iff.mp kept
    simp only [decide_eq_true_eq] at same
    obtain ⟨attempt, signed⟩ := tables.lockPol there
    exact ⟨same.1, same.2 ▸ tables.names known, attempt, signed⟩
  case h_2 =>
    split at found
    case h_1 => cases found
    case h_2 sigs there =>
    obtain ⟨-, found⟩ := ite_none_left_eq_some.mp found
    cases found
    refine ⟨rfl, tables.names known, rfl, ?_⟩
    intro sig mem
    obtain ⟨entry, listed, rfl⟩ := mem_map.mp mem
    obtain ⟨⟨seat, sig⟩, inside, rfl⟩ := mem_map.mp listed
    exact tables.sigs there ((KeyedMap.mem_ascending _ seat sig).mp inside)

/-- Keeping the prevotes behind a lock changes nothing else. -/
theorem refreshLock_eq (session : Session) :
    ∃ lockPol, session.refreshLock.1 = { session with lockPol := lockPol } ∧
      (lockPol = session.lockPol ∨
        ∃ round value lock, session.polFor round value = some lock ∧ lockPol = some lock) := by
  unfold refreshLock
  split
  · exact ⟨session.lockPol, rfl, Or.inl rfl⟩
  · split
    · split
      case h_1 lock found => exact ⟨some lock, rfl, Or.inr ⟨_, _, lock, found, rfl⟩⟩
      case h_2 => exact ⟨session.lockPol, rfl, Or.inl rfl⟩
    · exact ⟨session.lockPol, rfl, Or.inl rfl⟩

include tables in
theorem Tables.refreshLock : session.refreshLock.1.Tables setting made := by
  obtain ⟨lockPol, same, source⟩ := refreshLock_eq session
  rw [same]
  rcases source with rfl | ⟨round, value, lock, found, rfl⟩
  · exact tables
  · obtain ⟨-, -, attempt, signed⟩ := tables.polFor found
    exact { tables with lockPol := fun same => by cases same; exact ⟨attempt, signed⟩ }

/-! ## A turn -/

/-- The calls of the engine before the queue is carried out. -/
structure Called (setting : HeightSetting) (world : World) (start session : Session)
    (actions : List Action) : Prop where
  moves : Moves world start.engine session.engine actions
  place : SamePlace start.toDriver session.toDriver
  wal : session.wal = start.wal
  decisions : session.decisions = start.decisions
  kept : ∀ message ∈ start.signed, message ∈ session.signed
  spoke : ∀ message ∈ session.signed, message ∈ start.signed ∨ message.spokenAt = none ∨
    start.gaveUp = none ∧ ∃ kind round value text, session.engine.memory.voted kind round value ∧
      setting.Spells value text ∧ message = .vote start.attempt kind setting.height round text

/-- One more call of the engine. -/
theorem Called.next (called : Called setting world start session actions)
    (moves : Moves world session.engine after.engine joins)
    (place : SamePlace session.toDriver after.toDriver := by constructor <;> rfl)
    (wal : after.wal = session.wal := by rfl) (decisions : after.decisions = session.decisions := by rfl)
    (signed : after.signed = session.signed := by rfl) :
    Called setting world start after (actions ++ joins) where
  moves := called.moves.trans moves
  place := called.place.trans place
  wal := wal.trans called.wal
  decisions := decisions.trans called.decisions
  kept message mem := by
    rw [signed]
    exact called.kept message mem
  spoke message mem := by
    rw [signed] at mem
    rcases called.spoke message mem with old | silent | ⟨notGivenUp, again⟩
    · exact Or.inl old
    · exact Or.inr (Or.inl silent)
    · obtain ⟨kind, round, value, text, voted, rest⟩ := again
      exact Or.inr (Or.inr ⟨notGivenUp, kind, round, value, text,
        (moves.voted kind round value).mpr (Or.inl voted), rest⟩)

/-- Calls of the engine that sign nothing. -/
theorem Called.engine (moves : Moves world start.engine session.engine actions)
    (place : SamePlace start.toDriver session.toDriver := by constructor <;> rfl)
    (wal : session.wal = start.wal := by rfl) (decisions : session.decisions = start.decisions := by rfl)
    (signed : session.signed = start.signed := by rfl) :
    Called setting world start session actions :=
  ⟨moves, place, wal, decisions, fun _ mem => signed ▸ mem, fun _ mem => Or.inl (signed ▸ mem)⟩

/-- What a call of the engine and the queue behind it amount to. -/
structure Turn (setting : HeightSetting) (world : World) (start after : Session)
    (out : List Action) : Prop where
  moves : Moves world start.engine after.engine out
  place : SamePlace start.toDriver after.toDriver
  kept : ∀ message ∈ start.signed, message ∈ after.signed
  spoke : ∀ message ∈ after.signed, message ∈ start.signed ∨ message.spokenAt = none ∨
    start.gaveUp = none ∧ ∃ kind round value text, after.engine.memory.voted kind round value ∧
      setting.Spells value text ∧ message = .vote start.attempt kind setting.height round text
  sent : start.gaveUp = none → ∀ kind round value, .vote kind round value ∈ out →
    ∃ text, setting.Spells value text ∧
      .vote start.attempt kind setting.height round text ∈ after.signed
  decisions : ∀ decision ∈ after.decisions, decision ∈ start.decisions ∨
    ∃ round value, .decide round value ∈ out ∧
      decision = ⟨start.attempt, round, value, start.gaveUp.isSome⟩
  wal : (after.wal = start.wal ∧ (start.gaveUp = none → start.me ≠ none →
      ∀ kind round value, .vote kind round value ∉ out)) ∨
    (start.me ≠ none ∧ ∃ wal, Written setting after wal ∧ after.wal = some wal)

/-- After the queue, `apply` changes the kept lock and the vote record at most. -/
theorem apply_eq (actions : List Action) {voted : Bool}
    (drained : session.drain setting address order now session.gaveUp.isSome
      (actions.length + session.engine.workLeft + 1) actions = (middle, voted)) :
    ∃ lockPol wal, session.apply setting address order now actions =
        { middle with lockPol := lockPol, wal := wal } ∧
      (∀ made, middle.Tables setting made →
        { middle with lockPol := lockPol, wal := wal }.Tables setting made) ∧
      ((wal = middle.wal ∧ (voted = false ∨ middle.me = none)) ∨
        (middle.me ≠ none ∧ ∃ written, wal = some written ∧
          Written setting { middle with lockPol := lockPol, wal := wal } written)) := by
  have unfolded : session.apply setting address order now actions =
      if (voted || middle.refreshLock.2) = true then middle.refreshLock.1.persist setting
      else middle.refreshLock.1 := by
    unfold apply
    dsimp only
    rw [drained]
  obtain ⟨lockPol, refreshed, -⟩ := refreshLock_eq middle
  have tables : ∀ wal made, middle.Tables setting made →
      { middle with lockPol := lockPol, wal := wal }.Tables setting made := by
    intro wal made tables
    have kept := tables.refreshLock
    rw [refreshed] at kept
    exact { kept with }
  rw [unfolded, refreshed]
  refine ⟨lockPol, ?_⟩
  split
  case isTrue =>
    rcases persist_eq setting { middle with lockPol := lockPol } with ⟨away, same⟩ |
      ⟨here, written, writtenIs, same⟩
    · exact ⟨middle.wal, same, tables _, Or.inl ⟨rfl, Or.inr away⟩⟩
    · exact ⟨some written, same, tables _, Or.inr ⟨here, written, rfl, { writtenIs with }⟩⟩
  case isFalse nothing =>
    have quiet : voted = false := by
      cases voted with
      | false => rfl
      | true => simp at nothing
    exact ⟨middle.wal, rfl, tables _, Or.inl ⟨rfl, Or.inl quiet⟩⟩

theorem mem_signed_apply (actions : List Action) (mem : message ∈ session.signed) :
    message ∈ (session.apply setting address order now actions).signed := by
  rcases drainedIs : session.drain setting address order now session.gaveUp.isSome
    _ actions with ⟨middle, voted⟩
  obtain ⟨lockPol, wal, same, -⟩ := apply_eq order now actions drainedIs
  rw [same]
  change message ∈ (middle, voted).1.signed
  rw [← drainedIs]
  exact mem_signed_drain order now _ actions mem

include tables in
theorem apply_turn (called : Called setting (start.world setting made) start session actions)
    (fits : start.EngineFits setting address made)
    (own : ∀ message ∈ (session.apply setting address order now actions).signed, made ⟨address, message⟩) :
    ∃ out, Turn setting (start.world setting made) start
        (session.apply setting address order now actions) out ∧
      (session.apply setting address order now actions).Tables setting made := by
  have sessionFits := fits.moves called.moves called.place
  have reached : session.me ≠ none → ∀ round polRound value,
      .propose round polRound value ∈ actions → round ≤ session.engine.round := by
    intro member
    rw [called.place.me] at member
    exact (Moves.reached fits.engineOk (fits.sameSeat ▸ member) called.moves).2
  rcases drainedIs : session.drain setting address order now session.gaveUp.isSome
    _ actions with ⟨middle, voted⟩
  obtain ⟨lockPol, wal, appliedIs, keepTables, walIs⟩ := apply_eq order now actions drainedIs
  rw [appliedIs] at own ⊢
  obtain ⟨later, drained, drainedTables⟩ := drain_drained tables order now session.gaveUp.isSome
    (actions.length + session.engine.workLeft + 1) sessionFits
    (by unfold Tendermint.potential; split <;> omega) reached
    (fits.bound.emitted called.moves) (drainedIs ▸ own)
  rw [drainedIs] at drained drainedTables
  rw [Session.world, called.place.attempt] at drained
  have silentIs : session.gaveUp.isSome = start.gaveUp.isSome := by rw [called.place.gaveUp]
  have loud : start.gaveUp = none → session.gaveUp.isSome = false := by
    intro none
    rw [silentIs, none]
    rfl
  have moves := called.moves.trans drained.moves
  refine ⟨actions ++ later, ?_, keepTables made drainedTables⟩
  · refine
      { moves := moves
        place := called.place.trans { drained.place with }
        kept := fun message mem => drained.kept message (called.kept message mem)
        spoke := ?spoke
        sent := ?sent
        decisions := ?decisions
        wal := ?wal }
    case spoke =>
      intro message mem
      rcases drained.spoke message mem with earlier | silentMessage | ⟨notSilent, new⟩
      · rcases called.spoke message earlier with old | silentMessage | ⟨notGivenUp, again⟩
        · exact Or.inl old
        · exact Or.inr (Or.inl silentMessage)
        · obtain ⟨kind, round, value, text, already, spelled, same⟩ := again
          exact Or.inr (Or.inr ⟨notGivenUp, kind, round, value, text,
            (drained.moves.voted kind round value).mpr (Or.inl already), spelled, same⟩)
      · exact Or.inr (Or.inl silentMessage)
      · obtain ⟨kind, round, value, text, queued, spelled, same⟩ := new
        rw [called.place.attempt] at same
        have notGivenUp : start.gaveUp = none := by
          rw [silentIs] at notSilent
          exact not_isSome_iff_eq_none.mp (by simp [notSilent])
        exact Or.inr (Or.inr ⟨notGivenUp, kind, round, value, text,
          (moves.voted kind round value).mpr (Or.inr queued), spelled, same⟩)
    case sent =>
      intro notGivenUp kind round value mem
      obtain ⟨-, text, spelled, signed⟩ := drained.sent (loud notGivenUp) kind round value mem
      rw [called.place.attempt] at signed
      exact ⟨text, spelled, signed⟩
    case decisions =>
      intro decision mem
      rcases drained.decisions decision mem with earlier | ⟨round, value, queued, same⟩
      · rw [called.decisions] at earlier
        exact Or.inl earlier
      · rw [called.place.attempt, silentIs] at same
        exact Or.inr ⟨round, value, queued, same⟩
    case wal =>
      rcases walIs with ⟨same, quiet⟩ | ⟨here, written, same, writtenIs⟩
      · refine Or.inl ⟨same.trans (drained.wal.trans called.wal), ?_⟩
        intro notGivenUp member kind round value mem
        obtain ⟨votedHere, -⟩ := drained.sent (loud notGivenUp) kind round value mem
        rcases quiet with notVoted | away
        · rw [notVoted] at votedHere
          cases votedHere
        · rw [drained.place.me, called.place.me] at away
          exact member away
      · rw [drained.place.me, called.place.me] at here
        exact Or.inr ⟨here, written, writtenIs, same⟩

end Session

end EgoChain.Consensus
