import EgoChain.Consensus.CertificateFacts
import EgoChain.Consensus.DriverTurn

/-!
# The invariant of a driver

What a correct node has said in an attempt is backed by one memory that obeys the
rules of voting with locks: its votes are in that memory, and a give-up reports
the lock in it, or the lock the node inherited.  The memory is the engine's as
long as the node votes, and it is on disk before a vote leaves.
-/

namespace EgoChain.Consensus

open EgoChain.Foundations.LockVoting (Committee Commit Polka)

/-- The value ids a chain of certificates binds an engine to. -/
def HeightSetting.boundBy (setting : HeightSetting) (carried : Option TmLock) : Option ValueId :=
  carried.map fun lock => setting.valueId lock.value

/-- An accepted chain of certificates whose signatures were all made. -/
structure Footing (setting : HeightSetting) (made : Signature → Prop) (skips : List TmSkipCert)
    (attempt : Nat) (members miners : List Address) (carried : Option TmLock) : Prop where
  attemptIs : attemptOf skips = attempt
  chain : setting.skipChain skips = .ok ⟨members, miners, carried⟩
  signed : ∀ cert ∈ skips, ∀ sig ∈ cert.sigs, made sig
  numbers : ∀ cert ∈ skips, cert.attempt ≤ maxU32

variable {setting : HeightSetting} {made more : Signature → Prop} {attempt round : Nat}
  {members : List Address} {carried : Option TmLock} {value : ValueId} {signed later : List Message}
  {address : Address} (grows : ∀ sig, made sig → more sig)

include grows

variable {skips : List TmSkipCert} {miners : List Address} {memory : Memory} {message : Message}
  {decisions : List Decision} {wal : Option Wal}

theorem Footing.mono (footing : Footing setting made skips attempt members miners carried) :
    Footing setting more skips attempt members miners carried :=
  { footing with signed := fun cert mem sig inside => grows sig (footing.signed cert mem sig inside) }

omit grows in
theorem Footing.lock_signed (footing : Footing setting made skips attempt members miners carried)
    {cert : TmSkipCert} (inside : cert ∈ skips) {vote : TmSkipVote} (isVote : vote ∈ cert.votes)
    {lock : TmLock} (locked : vote.locked = some lock) : ∀ sig ∈ lock.sigs, made sig := by
  intro sig mem
  refine footing.signed cert inside sig (List.mem_flatMap.mpr ⟨vote, isVote, ?_⟩)
  rw [TmSkipVote.sigs, locked]
  exact List.mem_cons_of_mem _ mem

/-- A quorum of prevotes for which there are signatures. -/
def HeightSetting.PolkaAt (setting : HeightSetting) (made : Signature → Prop)
    (attempt round : Nat) (value : ValueId) : Prop :=
  ∃ members, setting.committeeForAttempt attempt = some members ∧
    Polka (seats members.length) (votesOf setting.Blank (setting.heardBy made attempt)) round value

theorem HeightSetting.PolkaAt.mono (polka : setting.PolkaAt made attempt round value) :
    setting.PolkaAt more attempt round value := by
  obtain ⟨members, seated, polka⟩ := polka
  exact ⟨members, seated, polka_mono (setting.heardBy_mono grows attempt) polka⟩

/-- No accepted chain carries a lock on the blank value. -/
def HeightSetting.Clean (setting : HeightSetting) (made : Signature → Prop) : Prop :=
  ∀ {skips attempt members miners lock}, Footing setting made skips attempt members miners (some lock) →
      ¬ setting.Blank (setting.valueId lock.value)

/-- The faulty members of a committee. -/
def HeightSetting.faultyAmong (setting : HeightSetting) (members : List Address) : Finset Address :=
  members.toFinset.filter (· ∈ setting.faulty)

/-- In every committee the correct members outnumber every set of votes that is not a
quorum. -/
def HeightSetting.FewFaulty (setting : HeightSetting) : Prop :=
  ∀ attempt members, setting.committeeForAttempt attempt = some members →
    (setting.faultyAmong members).card ≤ members.length - quorumOf members.length

/-- The order in which locks are compared. -/
def TmLock.rank (lock : TmLock) : Lex (Nat × Nat) := toLex (lock.attempt.getD 0, lock.round)

/-- The lock with which an attempt starts names the value of a lock from an earlier
attempt, no older than the one carried by some chain that ends before the attempt. -/
structure Descends (setting : HeightSetting) (made : Signature → Prop) (attempt : Nat)
    (first carried : Option TmLock) : Prop where
  opens : ∃ skips members miners, Footing setting made skips attempt members miners first ∧
    ∀ cert ∈ skips, cert.attempt < attempt
  inherits : first ≠ none → ∃ lock older source, carried = some lock ∧
    setting.valueId lock.value = setting.valueId older.value ∧
    older.attempt = some source ∧ source < attempt ∧
    (∀ base, first = some base → base.rank ≤ older.rank) ∧
    setting.PolkaAt made source older.round (setting.valueId older.value) ∧
    (lock = older ∨ lock.attempt = some attempt)

/-- The attempt counter stops at its largest value, where a committee can replace itself.
Even there what an attempt starts with goes back to an earlier one. -/
def Anchored (setting : HeightSetting) (made : Signature → Prop) (attempt : Nat)
    (carried : Option TmLock) : Prop :=
  setting.Clean made → setting.FewFaulty → ∃ first, Descends setting made attempt first carried

/-- What a node rests on when it takes part in an attempt. -/
structure Opening (setting : HeightSetting) (made : Signature → Prop) (skips : List TmSkipCert)
    (attempt : Nat) (members miners : List Address) (carried : Option TmLock) : Prop
    extends Footing setting made skips attempt members miners carried where
  accepted : ∀ {lock}, carried = some lock → setting.Accepts (setting.valueId lock.value)
  anchored : Anchored setting made attempt carried

theorem HeightSetting.Clean.anti (clean : setting.Clean more) : setting.Clean made :=
  fun footing => clean (footing.mono grows)

theorem Anchored.mono (anchored : Anchored setting made attempt carried) :
    Anchored setting more attempt carried := by
  intro clean few
  obtain ⟨first, descends⟩ := anchored (clean.anti grows) few
  obtain ⟨skips, members, miners, footing, before⟩ := descends.opens
  refine ⟨first, ⟨skips, members, miners, footing.mono grows, before⟩, fun some => ?_⟩
  obtain ⟨lock, older, source, carriedIs, same, fromIs, earlier, newer, polka, kind⟩ :=
    descends.inherits some
  exact ⟨lock, older, source, carriedIs, same, fromIs, earlier, newer, polka.mono grows, kind⟩

theorem Opening.mono (opening : Opening setting made skips attempt members miners carried) :
    Opening setting more skips attempt members miners carried :=
  { opening.toFooting.mono grows with
    accepted := opening.accepted
    anchored := opening.anchored.mono grows }

/-- The votes signed in an attempt are the votes in a memory. -/
structure VotesAre (setting : HeightSetting) (signed : List Message) (attempt : Nat)
    (memory : Memory) : Prop where
  votes : ∀ {kind height round text}, .vote attempt kind height round text ∈ signed →
    ∃ value, memory.voted kind round value ∧ setting.Spells value text
  released : ∀ {kind round value}, memory.voted kind round value → ∃ text,
    setting.Spells value text ∧ .vote attempt kind setting.height round text ∈ signed

omit grows in
theorem VotesAre.mono (votesAre : VotesAre setting signed attempt memory)
    (kept : ∀ message ∈ signed, message ∈ later)
    (same : ∀ message ∈ later, message.spokenAt = some attempt → message ∈ signed) :
    VotesAre setting later attempt memory where
  votes mem := votesAre.votes (same _ mem rfl)
  released voted :=
    let ⟨text, spelled, mem⟩ := votesAre.released voted
    ⟨text, spelled, kept _ mem⟩

/-- What a node has said in one attempt, in terms of one memory. -/
structure Record (setting : HeightSetting) (made : Signature → Prop) (address : Address)
    (signed : List Message) (attempt : Nat) (members : List Address) (carried : Option TmLock)
    (memory : Memory) : Prop where
  opens : ∃ skips miners, Opening setting made skips attempt members miners carried
  seat : ∃ seat, members.idxOf? address = some seat ∧
    memory.Ok (seats members.length) setting.Blank (setting.heardBy made attempt) (some seat)
  voted : ∀ {kind round value}, memory.voted kind round (some value) →
    Fits setting.Accepts (setting.boundBy carried) value
  locked : ∀ {round value}, memory.locked = some (round, value) →
    Fits setting.Accepts (setting.boundBy carried) value
  votesAre : VotesAre setting signed attempt memory
  gaveUp : ∀ {height locked}, .skip height attempt locked ∈ signed →
    memory.locked = locked.map fun lock => (lock.1, setting.valueId lock.2)
  gaveUpV2 : ∀ {height locked}, .skipV2 height attempt locked ∈ signed →
    (∃ round text, locked = some (attempt, round, text) ∧
      memory.locked = some (round, setting.valueId text)) ∨
    (memory.locked = none ∧
      locked = carried.map fun lock => (lock.attempt.getD attempt, lock.round, lock.value))

theorem Record.mono (record : Record setting made address signed attempt members carried memory)
    (kept : ∀ message ∈ signed, message ∈ later)
    (same : ∀ message ∈ later, message.spokenAt = some attempt → message ∈ signed) :
    Record setting more address later attempt members carried memory where
  opens :=
    let ⟨skips, miners, opening⟩ := record.opens
    ⟨skips, miners, opening.mono grows⟩
  seat :=
    let ⟨seat, place, ok⟩ := record.seat
    ⟨seat, place, ok.hear (setting.heardBy_mono grows attempt)⟩
  voted := record.voted
  locked := record.locked
  votesAre := record.votesAre.mono kept same
  gaveUp mem := record.gaveUp (same _ mem rfl)
  gaveUpV2 mem := record.gaveUpV2 (same _ mem rfl)

/-- What the votes on disk and the messages signed have to do with each other while the
node has not given up. -/
structure Abreast (setting : HeightSetting) (signed : List Message) (attempt : Nat)
    (memory : Memory) : Prop extends VotesAre setting signed attempt memory where
  noGiveUp : ∀ {height locked}, .skip height attempt locked ∉ signed
  noGiveUpV2 : ∀ {height locked}, .skipV2 height attempt locked ∉ signed

omit grows in
theorem Abreast.congr {other : Memory} (abreast : Abreast setting signed attempt memory)
    (same : ∀ kind round value, memory.voted kind round value ↔ other.voted kind round value) :
    Abreast setting signed attempt other :=
  { abreast with
    votes := fun mem =>
      let ⟨value, voted, spelled⟩ := abreast.votes mem
      ⟨value, (same _ _ _).mp voted, spelled⟩
    released := fun voted => abreast.released ((same _ _ _).mpr voted) }

/-- The vote record on disk. -/
structure WalOk (setting : HeightSetting) (made : Signature → Prop) (address : Address)
    (signed : List Message) (wal : Wal) : Prop where
  place : ∃ members miners carried, Opening setting made wal.skips wal.attempt members miners carried ∧
      wal.tm.Bound setting.Accepts (setting.boundBy carried) ∧
      ∃ seat, members.idxOf? address = some seat ∧ wal.tm.memory.Ok (seats members.length) setting.Blank
          (setting.heardBy made wal.attempt) (some seat)
  height : wal.tm.height = setting.height
  parent : wal.parent = setting.parentHash
  lockPol : ∀ {lock}, wal.lockPol = some lock →
    lock.attempt = (if compactSkip wal.attempt then some wal.attempt else none) ∧
      ∀ sig ∈ lock.sigs, made sig
  gaveUp : ∀ {vote}, wal.gaveUp = some vote → ∀ sig ∈ vote.sigs, made sig
  spoken : ∀ {message attempt}, message ∈ signed → message.spokenAt = some attempt →
    attempt ≤ wal.attempt
  abreast : wal.gaveUp = none → Abreast setting signed wal.attempt wal.tm.memory

theorem WalOk.mono {wal : Wal} (walOk : WalOk setting made address signed wal)
    (spoken : ∀ {message attempt}, message ∈ later → message.spokenAt = some attempt →
      attempt ≤ wal.attempt)
    (abreast : wal.gaveUp = none → Abreast setting later wal.attempt wal.tm.memory) :
    WalOk setting more address later wal where
  place :=
    let ⟨members, miners, carried, opening, bound, seat, sat, ok⟩ := walOk.place
    ⟨members, miners, carried, opening.mono grows, bound, seat, sat,
      ok.hear (setting.heardBy_mono grows wal.attempt)⟩
  height := walOk.height
  parent := walOk.parent
  lockPol found := (walOk.lockPol found).imp_right fun signed sig mem => grows sig (signed sig mem)
  gaveUp found sig mem := grows sig (walOk.gaveUp found sig mem)
  spoken := spoken
  abreast := abreast

/-- A decision that rests on a quorum of signed precommits. -/
def Committed (setting : HeightSetting) (made : Signature → Prop) (attempt round : Nat)
    (value : ValueId) : Prop :=
  setting.Accepts value ∧ (¬ setting.Blank value → ∃ members,
    setting.committeeForAttempt attempt = some members ∧
      Commit (seats members.length) (votesOf setting.Blank (setting.heardBy made attempt)) round value)

theorem Committed.mono (committed : Committed setting made attempt round value) :
    Committed setting more attempt round value := by
  refine ⟨committed.1, fun counts => ?_⟩
  obtain ⟨members, seated, commit⟩ := committed.2 counts
  exact ⟨members, seated, commit_mono (setting.heardBy_mono grows attempt) commit⟩

/-- What a node has said and decided so far. -/
structure Past (setting : HeightSetting) (made : Signature → Prop) (address : Address)
    (signed : List Message) (decisions : List Decision) : Prop where
  own : ∀ message ∈ signed, made ⟨address, message⟩
  records : ∀ {message attempt}, message ∈ signed → message.spokenAt = some attempt →
    ∃ members carried memory, Record setting made address signed attempt members carried memory
  committed : ∀ decision ∈ decisions, decision.silent = false →
    Committed setting made decision.attempt decision.round decision.value

/-- What outlives a crash. -/
structure History (setting : HeightSetting) (made : Signature → Prop) (address : Address)
    (wal : Option Wal) (signed : List Message) (decisions : List Decision) : Prop
    extends Past setting made address signed decisions where
  walOk : ∀ {record}, wal = some record → WalOk setting made address signed record
  noWal : wal = none → ∀ message ∈ signed, message.spokenAt = none

theorem History.mono (history : History setting made address wal signed decisions) :
    History setting more address wal signed decisions where
  own message mem := grows _ (history.own message mem)
  records mem spoken :=
    let ⟨members, carried, memory, record⟩ := history.records mem spoken
    ⟨members, carried, memory, record.mono grows (fun _ => id) (fun _ inside _ => inside)⟩
  committed decision mem loud := (history.committed decision mem loud).mono grows
  walOk found := (history.walOk found).mono grows (fun mem => (history.walOk found).spoken mem)
    (history.walOk found).abreast
  noWal := history.noWal

omit grows

/-- What was said in an attempt is covered by the vote record. -/
theorem History.on_disk (history : History setting made address wal signed decisions)
    (mem : message ∈ signed) (spoken : message.spokenAt = some attempt) :
    ∃ record, wal = some record ∧ attempt ≤ record.attempt := by
  cases onDisk : wal with
  | none =>
    rw [history.noWal onDisk message mem] at spoken
    cases spoken
  | some record => exact ⟨record, rfl, (history.walOk onDisk).spoken mem spoken⟩

namespace Session

/-- The memory of a node that votes and has not given up is on disk, or is empty. -/
def Live (session : Session) : Prop :=
  (session.gaveUp = none ∧ (∀ kind round value, ¬ session.engine.memory.voted kind round value) ∧
    ∀ record, session.wal = some record → record.attempt < session.attempt) ∨
  ∃ record, session.wal = some record ∧ record.attempt = session.attempt ∧
    record.skips = session.skips ∧ record.gaveUp = session.gaveUp ∧
    (session.gaveUp = none → ∀ kind round value,
      session.engine.memory.voted kind round value ↔ record.tm.memory.voted kind round value)

/-- The attempt a node is at, and what its driver knows there. -/
structure Placed (setting : HeightSetting) (made : Signature → Prop) (address : Address)
    (session : Session) : Prop where
  opening : Opening setting made session.skips session.attempt session.members session.miners
    session.carried
  engine : session.EngineFits setting address made
  size : session.engine.n = session.members.length ∧ session.engine.height = setting.height
  tables : session.Tables setting made
  observer : session.me = none → session.gaveUp = none ∧
    ∀ kind round value, ¬ session.engine.memory.voted kind round value

/-- The invariant between calls. -/
structure Ok (setting : HeightSetting) (made : Signature → Prop) (address : Address)
    (session : Session) : Prop extends Placed setting made address session where
  history : History setting made address session.wal session.signed session.decisions
  behind : ∀ {record}, session.wal = some record → record.attempt ≤ session.attempt
  live : session.me ≠ none → session.Live

/-- The part of the invariant that is there before the vote record is written. -/
structure Unsaved (setting : HeightSetting) (made : Signature → Prop) (address : Address)
    (session : Session) : Prop extends Placed setting made address session where
  past : Past setting made address session.signed session.decisions
  spoken : ∀ {message attempt}, message ∈ session.signed → message.spokenAt = some attempt →
    attempt ≤ session.attempt
  abreast : session.me ≠ none → session.gaveUp = none →
    Abreast setting session.signed session.attempt session.engine.memory

variable {session : Session}

theorem EngineFits.mono (fits : session.EngineFits setting address made)
    (grows : ∀ sig, made sig → more sig) : session.EngineFits setting address more :=
  { fits with engineOk := fits.engineOk.hear (setting.heardBy_mono grows session.attempt) }

/-- While a node votes, what it has signed in the attempt is what its engine remembers. -/
theorem Ok.abreast (ok : session.Ok setting made address) (notGivenUp : session.gaveUp = none) :
    session.me ≠ none → Abreast setting session.signed session.attempt session.engine.memory := by
  intro member
  rcases ok.live member with ⟨-, nothing, earlier⟩ | ⟨record, found, atAttempt, -, sameGaveUp, same⟩
  · -- Nothing has been said in this attempt yet.
    have unspoken : ∀ message ∈ session.signed, message.spokenAt ≠ some session.attempt := by
      intro message mem spoken
      obtain ⟨record, onDisk, late⟩ := ok.history.on_disk mem spoken
      have below := earlier record onDisk
      omega
    exact {
      noGiveUp := fun mem => unspoken _ mem rfl
      noGiveUpV2 := fun mem => unspoken _ mem rfl
      votes := fun mem => absurd rfl (unspoken _ mem)
      released := fun voted => absurd voted (nothing _ _ _) }
  · have abreast := (ok.history.walOk found).abreast (sameGaveUp.trans notGivenUp)
    rw [atAttempt] at abreast
    exact abreast.congr fun kind round value => (same notGivenUp kind round value).symm

/-- The record of the current attempt, as long as the node votes. -/
theorem record_of_abreast (fits : session.EngineFits setting address made)
    (opening : Opening setting made session.skips session.attempt session.members session.miners
      session.carried)
    (member : session.me ≠ none)
    (abreast : Abreast setting session.signed session.attempt session.engine.memory) :
    Record setting made address session.signed session.attempt session.members session.carried
      session.engine.memory := by
  obtain ⟨seat, sat⟩ := Option.ne_none_iff_exists'.mp member
  have remembers := fits.engineOk.remembers (fits.sameSeat ▸ member)
  rw [fits.sameSeat, sat] at remembers
  exact {
    opens := ⟨_, _, opening⟩
    seat := ⟨seat, fits.seated sat, remembers⟩
    voted := fits.bound.voted
    locked := fits.bound.locked
    votesAre := abreast.toVotesAre
    gaveUp := fun mem => absurd mem abreast.noGiveUp
    gaveUpV2 := fun mem => absurd mem abreast.noGiveUpV2 }

/-- Writing the vote record restores the invariant. -/
theorem Unsaved.written {wal : Wal} (unsaved : session.Unsaved setting made address)
    (member : session.me ≠ none) (written : Written setting session wal)
    (onDisk : session.wal = some wal) : session.Ok setting made address := by
  obtain ⟨tm, parent, attempt, skips, gaveUp, lockPol, lockBlock⟩ := wal
  obtain ⟨rfl, rfl, rfl, rfl, rfl, rfl⟩ := written
  obtain ⟨seat, sat⟩ := Option.ne_none_iff_exists'.mp member
  have remembers := unsaved.engine.engineOk.remembers (unsaved.engine.sameSeat ▸ member)
  rw [unsaved.engine.sameSeat, sat, ← Tendermint.saved_memory] at remembers
  have abreast := unsaved.abreast member
  rw [← Tendermint.saved_memory] at abreast
  refine { unsaved.toPlaced with
      history := { unsaved.past with walOk := ?walOk, noWal := ?noWal }
      behind := ?behind
      live := fun _ => Or.inr ⟨_, onDisk, rfl, rfl, rfl, ?same⟩ }
  case walOk =>
    intro record found
    cases onDisk.symm.trans found
    exact
      { place := ⟨_, _, _, unsaved.opening, unsaved.engine.bound.saved, seat,
          unsaved.engine.seated sat, remembers⟩
        height := unsaved.size.2
        parent := rfl
        lockPol := unsaved.tables.lockPol
        gaveUp := unsaved.tables.gaveUp
        spoken := unsaved.spoken
        abreast := abreast }
  case noWal =>
    intro missing
    cases missing.symm.trans onDisk
  case behind =>
    intro record found
    cases onDisk.symm.trans found
    exact le_rfl
  case same =>
    rw [Tendermint.saved_memory]
    exact fun _ _ _ _ => Iff.rfl

/-- The votes and give-ups of a node are not ahead of the attempt it is at. -/
theorem Ok.spoken (ok : session.Ok setting made address)
    (mem : message ∈ session.signed) (spoken : message.spokenAt = some attempt) :
    attempt ≤ session.attempt := by
  obtain ⟨record, onDisk, before⟩ := ok.history.on_disk mem spoken
  exact before.trans (ok.behind onDisk)

/-! ## What a turn keeps -/

section Turn

variable {start after : Session} {out : List Action}

section

variable (ok : start.Ok setting made address)
  (turn : Turn setting (start.world setting made) start after out)

include ok turn

theorem Ok.turn_away (away : start.me = none) (kind : VoteKind) (round : Nat) (value : Option ValueId) :
    ¬ after.engine.memory.voted kind round value := by
  intro voted
  rcases (turn.moves.voted kind round value).mp voted with before | emitted
  · exact (ok.observer away).2 kind round value before
  · exact turn.moves.away (ok.engine.sameSeat.trans away) kind round value emitted

/-- The votes and give-ups a turn adds are votes of the current attempt, by a node that
votes. -/
theorem Ok.turn_spoke (mem : message ∈ after.signed) (spoken : message.spokenAt = some attempt) :
    message ∈ start.signed ∨ (attempt = start.attempt ∧ start.me ≠ none ∧ start.gaveUp = none ∧
        ∃ kind round value text, after.engine.memory.voted kind round value ∧
          setting.Spells value text ∧
          message = .vote start.attempt kind setting.height round text) := by
  rcases turn.spoke message mem with old | silent | ⟨notGivenUp, new⟩
  · exact Or.inl old
  · rw [silent] at spoken
    cases spoken
  · obtain ⟨kind, round, value, text, voted, spelled, rfl⟩ := new
    exact Or.inr ⟨(Option.some.inj spoken).symm, fun away => ok.turn_away turn away kind round value voted,
      notGivenUp, kind, round, value, text, voted, spelled, rfl⟩

theorem Ok.turn_abreast (member : start.me ≠ none) (notGivenUp : start.gaveUp = none) :
    Abreast setting after.signed start.attempt after.engine.memory := by
  have abreast := ok.abreast notGivenUp member
  have giveUp {message : Message} (mem : message ∈ after.signed)
      (spoken : message.spokenAt = some start.attempt)
      (other : ∀ kind round text, message ≠ .vote start.attempt kind setting.height round text) :
      message ∈ start.signed := by
    rcases ok.turn_spoke turn mem spoken with old | ⟨-, -, -, _, _, _, _, -, -, isVote⟩
    · exact old
    · exact absurd isVote (other _ _ _)
  refine
    { votes := ?votes
      released := ?released
      noGiveUp := fun mem => abreast.noGiveUp (giveUp mem rfl nofun)
      noGiveUpV2 := fun mem => abreast.noGiveUpV2 (giveUp mem rfl nofun) }
  case votes =>
    intro kind height round text mem
    rcases ok.turn_spoke turn mem rfl with old | ⟨-, -, -, k, r, value, t, voted, spelled, same⟩
    · obtain ⟨value, voted, spelled⟩ := abreast.votes old
      exact ⟨value, (turn.moves.voted kind round value).mpr (Or.inl voted), spelled⟩
    · obtain ⟨-, rfl, -, rfl, rfl⟩ := Message.vote.inj same
      exact ⟨value, voted, spelled⟩
  case released =>
    intro kind round value voted
    rcases (turn.moves.voted kind round value).mp voted with before | emitted
    · obtain ⟨text, spelled, mem⟩ := abreast.released before
      exact ⟨text, spelled, turn.kept _ mem⟩
    · exact turn.sent notGivenUp kind round value emitted

theorem Ok.turn_unchanged
    (elsewhere : ¬ (attempt = start.attempt ∧ start.me ≠ none ∧ start.gaveUp = none)) :
    ∀ message ∈ after.signed, message.spokenAt = some attempt → message ∈ start.signed := by
  intro message mem spoken
  rcases ok.turn_spoke turn mem spoken with old | ⟨same, member, notGivenUp, -⟩
  · exact old
  · exact absurd ⟨same, member, notGivenUp⟩ elsewhere

/-- A decision of a node that has not given up rests on signed precommits. -/
theorem Ok.turn_committed (notGivenUp : start.gaveUp = none)
    (own : ∀ message ∈ after.signed, made ⟨address, message⟩)
    (decided : .decide round value ∈ out) : Committed setting made start.attempt round value := by
  refine ⟨ok.engine.bound.emitted turn.moves _ decided, fun counts => ?_⟩
  have seated := (HeightView.skipChain_ok ok.opening.chain).1
  rw [ok.opening.attemptIs] at seated
  refine ⟨start.members, seated, ?_⟩
  obtain ⟨before, later, split⟩ := List.append_of_mem decided
  refine commit_mono ?_ (Moves.decided ok.engine.engineOk turn.moves counts split)
  rintro kind at' voter v (heard | ⟨mine, votedOrSent⟩)
  · exact heard
  · have sat : start.me = some voter := ok.engine.sameSeat.symm.trans mine
    have voted : after.engine.memory.voted kind at' v := by
      refine (turn.moves.voted kind at' v).mpr (votedOrSent.imp_right fun mem => ?_)
      rw [split]
      exact List.mem_append_left _ mem
    obtain ⟨text, spelled, mem⟩ := (ok.turn_abreast turn (by simp [sat]) notGivenUp).released voted
    rintro w rfl
    exact ⟨start.members, address, text, seated, ok.engine.seated sat, spelled, own _ mem⟩

theorem Ok.turn_unsaved (own : ∀ message ∈ after.signed, made ⟨address, message⟩)
    (tables : after.Tables setting made) : after.Unsaved setting made address := by
  have place := turn.place
  have fits := ok.engine.moves turn.moves place
  have opening : Opening setting made after.skips after.attempt after.members after.miners
      after.carried := by
    rw [place.skips, place.attempt, place.members, place.miners, place.carried]
    exact ok.opening
  have abreast : after.me ≠ none → after.gaveUp = none →
      Abreast setting after.signed after.attempt after.engine.memory := by
    rw [place.me, place.gaveUp, place.attempt]
    exact ok.turn_abreast turn
  refine
    { opening := opening
      engine := fits
      size := ?size
      tables := tables
      observer := ?observer
      past := { own := own, records := ?records, committed := ?committed }
      spoken := ?spoken
      abreast := abreast }
  case size =>
    rw [turn.moves.seat.2.1, turn.moves.seat.2.2, place.members]
    exact ok.size
  case observer =>
    rw [place.me, place.gaveUp]
    exact fun away => ⟨(ok.observer away).1, ok.turn_away turn away⟩
  case records =>
    intro message attempt mem spoken
    by_cases current : attempt = start.attempt ∧ start.me ≠ none ∧ start.gaveUp = none
    · obtain ⟨rfl, member, notGivenUp⟩ := current
      rw [← place.attempt]
      exact ⟨_, _, _, record_of_abreast fits opening (place.me ▸ member)
        (abreast (place.me ▸ member) (place.gaveUp ▸ notGivenUp))⟩
    · -- Nothing was added in this attempt.
      have unchanged := ok.turn_unchanged turn current
      obtain ⟨members, carried, memory, record⟩ :=
        ok.history.records (unchanged message mem spoken) spoken
      exact ⟨members, carried, memory, record.mono (fun _ => id) turn.kept unchanged⟩
  case committed =>
    intro decision mem loud
    rcases turn.decisions decision mem with old | ⟨round, value, emitted, rfl⟩
    · exact ok.history.committed decision old loud
    · have notGivenUp : start.gaveUp = none := Option.not_isSome_iff_eq_none.mp (by simp_all)
      exact ok.turn_committed turn notGivenUp own emitted
  case spoken =>
    intro message attempt mem spoken
    rw [place.attempt]
    rcases ok.turn_spoke turn mem spoken with old | ⟨same, -⟩
    · exact ok.spoken old spoken
    · exact same.le

end

/-- A turn keeps the invariant. -/
theorem Ok.turn (ok : start.Ok setting made address)
    (turn : Turn setting (start.world setting made) start after out)
    (own : ∀ message ∈ after.signed, made ⟨address, message⟩)
    (tables : after.Tables setting made) : after.Ok setting made address := by
  have unsaved := ok.turn_unsaved turn own tables
  have place := turn.place
  rcases turn.wal with ⟨sameWal, quiet⟩ | ⟨member, wal, written, onDisk⟩
  case inr => exact unsaved.written (place.me ▸ member) written onDisk
  -- The vote record is as before, so the node released no vote in this turn.
  have sameVotes : start.me ≠ none → start.gaveUp = none → ∀ kind round value,
      after.engine.memory.voted kind round value ↔ start.engine.memory.voted kind round value := by
    intro member notGivenUp kind round value
    rw [turn.moves.voted]
    exact or_iff_left (quiet notGivenUp member kind round value)
  have covered : ∀ {message attempt}, message ∈ after.signed → message.spokenAt = some attempt →
      ∃ record, start.wal = some record ∧ attempt ≤ record.attempt := by
    intro message attempt mem spoken
    rcases ok.turn_spoke turn mem spoken with old |
      ⟨same, member, notGivenUp, kind, round, value, -, voted, -⟩
    · exact ok.history.on_disk old spoken
    · have before := (sameVotes member notGivenUp kind round value).mp voted
      rcases ok.live member with ⟨-, nothing, -⟩ | ⟨record, onDisk, atAttempt, -⟩
      · exact absurd before (nothing kind round value)
      · exact ⟨record, onDisk, le_of_eq (same.trans atAttempt.symm)⟩
  refine { unsaved.toPlaced with
      history := { unsaved.past with walOk := ?walOk, noWal := ?noWal }
      behind := ?behind
      live := ?live }
  case walOk =>
    intro record found
    rw [sameWal] at found
    refine (ok.history.walOk found).mono (fun _ => id) (fun mem spoken => ?_) fun notGivenUp => ?_
    · obtain ⟨other, onDisk, before⟩ := covered mem spoken
      cases found.symm.trans onDisk
      exact before
    have abreast := (ok.history.walOk found).abreast notGivenUp
    by_cases current : record.attempt = start.attempt ∧ start.me ≠ none ∧ start.gaveUp = none
    · obtain ⟨atAttempt, member, voting⟩ := current
      have now := ok.turn_abreast turn member voting
      rcases ok.live member with ⟨-, -, earlier⟩ | ⟨other, onDisk, -, -, -, same⟩
      · have := earlier record found
        omega
      · cases found.symm.trans onDisk
        rw [← atAttempt] at now
        exact now.congr fun kind round value =>
          (sameVotes member voting kind round value).trans (same voting kind round value)
    · have unchanged := ok.turn_unchanged turn current
      exact { abreast.toVotesAre.mono turn.kept unchanged with
        noGiveUp := fun mem => abreast.noGiveUp (unchanged _ mem rfl)
        noGiveUpV2 := fun mem => abreast.noGiveUpV2 (unchanged _ mem rfl) }
  case noWal =>
    intro missing message mem
    rw [sameWal] at missing
    refine Option.eq_none_iff_forall_ne_some.mpr fun attempt spoken => ?_
    obtain ⟨record, onDisk, -⟩ := covered mem spoken
    cases missing.symm.trans onDisk
  case behind =>
    intro record found
    rw [sameWal] at found
    rw [place.attempt]
    exact ok.behind found
  case live =>
    intro member
    rw [place.me] at member
    unfold Live
    rw [sameWal, place.attempt, place.skips, place.gaveUp]
    rcases ok.live member with ⟨voting, nothing, earlier⟩ |
      ⟨record, onDisk, atAttempt, skips, gaveUp, same⟩
    · refine Or.inl ⟨voting, fun kind round value voted => ?_, earlier⟩
      exact nothing kind round value ((sameVotes member voting kind round value).mp voted)
    · refine Or.inr ⟨record, onDisk, atAttempt, skips, gaveUp, fun voting kind round value => ?_⟩
      exact (sameVotes member voting kind round value).trans (same voting kind round value)

end Turn

end Session

end EgoChain.Consensus
