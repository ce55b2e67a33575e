import EgoChain.Consensus.DriverInvariant
import EgoChain.Foundations.Handover

/-!
# What a replacement inherits

The records behind the signatures of one height, taken together.  A committee's
correct members obey the rules of voting with locks.  Once enough members of a
committee have precommitted a value, every chain of give-ups that leads past it
carries a lock on that value, so that the committees form a relay.
-/

namespace EgoChain.Consensus

open EgoChain.Foundations Nat HeightView List
open EgoChain.Foundations.LockVoting (Committee Votes Polka Commit Disciplined Relay)

/-- There is a record for everything a correct node has said. -/
def Recorded (setting : HeightSetting) (made : Signature → Prop) : Prop :=
  ∀ signer, signer ∉ setting.faulty → ∃ signed : List Message,
    (∀ message, made ⟨signer, message⟩ ↔ message ∈ signed) ∧
    ∀ {message attempt}, message ∈ signed → message.spokenAt = some attempt → ∃ members carried memory,
        Record setting made signer signed attempt members carried memory

variable {attempt : Nat} {members : List Address} {address : Address}

namespace HeightSetting

variable (setting : HeightSetting)

def faultySeats (members : List Address) : Finset Nat :=
  placesOf members setting.faulty

/-- The committee of an attempt; without one, nobody. -/
def membersAt (attempt : Nat) : List Address :=
  (setting.committeeForAttempt attempt).getD []

def votesAt (made : Signature → Prop) (attempt : Nat) : Votes Nat ValueId :=
  votesOf setting.Blank (setting.heardBy made attempt)

variable {setting} {made : Signature → Prop}

theorem membersAt_eq (seated : setting.committeeForAttempt attempt = some members) :
    setting.membersAt attempt = members := by
  rw [membersAt, seated]
  rfl

theorem FewFaulty.seats (few : setting.FewFaulty) (attempt : Nat) :
    (setting.faultySeats (setting.membersAt attempt)).card ≤
      (setting.membersAt attempt).length - quorum (setting.membersAt attempt).length := by
  cases seated : setting.committeeForAttempt attempt with
  | none =>
    rw [membersAt, seated]
    exact le_refl 0
  | some members =>
    rw [membersAt_eq seated]
    exact card_placesOf_le.trans (few attempt members seated)

theorem not_faulty_of_seat {seat : Nat} (place : members.idxOf? address = some seat)
    (correct : seat ∉ setting.faultySeats members) : address ∉ setting.faulty :=
  fun faulty => correct (mem_placesOf.mpr ⟨address, faulty, place⟩)

end HeightSetting

/-- Votes of seats that are all heard are votes of a committee with faulty seats. -/
theorem backed_of_seats {n : Nat} {faulty : Finset Nat} (few : faulty.card ≤ n - quorum n)
    {said : Nat → Prop} (backed : (seats n).Backed said) : (committeeOf n faulty few).Backed said := by
  obtain ⟨voters, inside, large, spoke⟩ := backed
  refine ⟨voters, inside, large, fun voter mem => Or.inr ?_⟩
  exact (spoke voter mem).resolve_left (by simp [seats, committeeOf])

section Records

variable {setting : HeightSetting} {made : Signature → Prop} {signed : List Message}
  {carried : Option TmLock} {memory : Memory}

theorem Record.seated (record : Record setting made address signed attempt members carried memory) :
    setting.committeeForAttempt attempt = some members := by
  obtain ⟨skips, miners, opening⟩ := record.opens
  have seated := (skipChain_ok opening.chain).1
  rw [opening.attemptIs] at seated
  exact seated

/-- What a correct member knows of is heard by all. -/
theorem Record.heard {seat : Nat}
    (record : Record setting made address signed attempt members carried memory)
    (own : ∀ message ∈ signed, made ⟨address, message⟩)
    (place : members.idxOf? address = some seat) (kind : VoteKind) (round voter : Nat)
    (value : Option ValueId)
    (known : known (setting.heardBy made attempt) (some seat) memory kind round voter value) :
    setting.heardBy made attempt kind round voter value := by
  rcases known with heard | ⟨mine, voted⟩
  · exact heard
  · cases mine
    rintro v rfl
    obtain ⟨text, spelled, mem⟩ := record.votesAre.released voted
    exact ⟨members, address, text, record.seated, place, spelled, own _ mem⟩

variable {round later : Nat} {best : Option TmLock} {value : ValueId} {vote : TmSkipVote}
  {lock : TmLock} {skips : List TmSkipCert} {miners : List Address} {cert : TmSkipCert}
  {earlier : Nat → Option (List Address)} {kind : VoteKind}

/-- A vote that was heard of is in the memory of the member who cast it. -/
theorem Record.remembers {seat : Nat}
    (record : Record setting made address signed attempt members carried memory)
    (madeIff : ∀ message, made ⟨address, message⟩ ↔ message ∈ signed)
    (place : members.idxOf? address = some seat) (counts : ¬ setting.Blank value)
    (heard : setting.heardBy made attempt kind round seat (some value)) :
    memory.voted kind round (some value) := by
  obtain ⟨again, other, name, seatedAgain, placeAgain, spelled, signedIt⟩ := heard value rfl
  cases seatedAgain.symm.trans record.seated
  obtain rfl := idxOf?_inj place placeAgain
  obtain ⟨voted, inMemory, spells⟩ := record.votesAre.votes ((madeIff _).mp signedIt)
  cases voted with
  | some w =>
    obtain rfl : w = value := spells.symm.trans spelled
    exact inMemory
  | none =>
    -- A vote for nothing has the bytes of a vote for the blank value only.
    have empty : name = [] := spells
    subst empty
    exact absurd spelled.symm counts

/-- The record behind the votes of a correct seat. -/
theorem Recorded.seat (recorded : Recorded setting made) {seat : Nat}
    (seated : setting.committeeForAttempt attempt = some members)
    (correct : seat ∉ setting.faultySeats members)
    (heard : setting.heardBy made attempt kind round seat (some value)) :
    ∃ address signed carried memory, members.idxOf? address = some seat ∧
      address ∉ setting.faulty ∧ (∀ message, made ⟨address, message⟩ ↔ message ∈ signed) ∧
      Record setting made address signed attempt members carried memory ∧
      ∀ {k r v}, ¬ setting.Blank v → setting.heardBy made attempt k r seat (some v) →
        memory.voted k r (some v) := by
  obtain ⟨there, address, text, seatedThere, place, -, signedIt⟩ := heard value rfl
  cases seatedThere.symm.trans seated
  have notFaulty := HeightSetting.not_faulty_of_seat place correct
  obtain ⟨signed, madeIff, records⟩ := recorded address notFaulty
  obtain ⟨members, carried, memory, record⟩ := records ((madeIff _).mp signedIt) rfl
  cases record.seated.symm.trans seated
  exact ⟨address, signed, carried, memory, place, notFaulty, madeIff, record,
    record.remembers madeIff place⟩

/-- The memory behind a correct seat obeys the rules of voting with locks, with polkas
that all can hear of. -/
theorem Recorded.disciplined (recorded : Recorded setting made) {seat : Nat}
    (seated : setting.committeeForAttempt attempt = some members)
    (few : (setting.faultySeats members).card ≤ members.length - quorum members.length)
    (correct : seat ∉ setting.faultySeats members) :
    Disciplined (committeeOf members.length (setting.faultySeats members) few)
      (setting.votesAt made attempt) seat := by
  refine ⟨?onePrevote, ?onePrecommit, ?backed, ?justified⟩
  case onePrevote | onePrecommit =>
    rintro round value other ⟨counts, heard⟩ ⟨otherCounts, otherHeard⟩
    obtain ⟨address, signed, carried, memory, place, -, -, record, voted⟩ :=
      recorded.seat seated correct heard
    obtain ⟨there, -, ok⟩ := record.seat
    exact Option.some.inj (ok.oneVote (voted counts heard) (voted otherCounts otherHeard))
  case backed =>
    rintro round value ⟨counts, heard⟩
    obtain ⟨address, signed, carried, memory, place, -, madeIff, record, voted⟩ :=
      recorded.seat seated correct heard
    obtain ⟨there, placeToo, ok⟩ := record.seat
    cases placeToo.symm.trans place
    refine backed_of_seats few (polka_mono ?_ ((ok.precommitLocked (voted counts heard)).1 counts))
    exact record.heard (fun message => (madeIff message).mpr) place
  case justified =>
    rintro round value later other ⟨counts, heard⟩ ⟨otherCounts, otherHeard⟩ after different
    obtain ⟨address, signed, carried, memory, place, -, madeIff, record, voted⟩ :=
      recorded.seat seated correct heard
    obtain ⟨there, placeToo, ok⟩ := record.seat
    cases placeToo.symm.trans place
    obtain ⟨proof, notBefore, before, polka⟩ := ok.justified (voted counts heard)
      (voted otherCounts otherHeard) after otherCounts different
    refine ⟨proof, notBefore, before, backed_of_seats few (polka_mono ?_ polka)⟩
    exact record.heard (fun message => (madeIff message).mpr) place

/-! ## Give-ups -/

/-- What the give-up of a correct member says: the lock in its memory or, without one,
what it inherited, as far as give-ups of that attempt pass it on. -/
inductive Testimony (setting : HeightSetting) (attempt : Nat) (carried : Option TmLock)
    (memory : Memory) (vote : TmSkipVote) : Prop where
  | own (lock : TmLock) (reports : vote.Reports attempt attempt lock)
      (locked : memory.locked = some (lock.round, setting.valueId lock.value))
  | nothing (unlocked : memory.locked = none) (silent : vote.locked = none)
      (free : compactSkip attempt = true → carried = none)
  | inherited (lock base : TmLock) (unlocked : memory.locked = none)
      (compact : compactSkip attempt = true) (bound : carried = some base)
      (reports : vote.Reports attempt (base.attempt.getD attempt) lock)
      (sameRound : lock.round = base.round) (sameValue : lock.value = base.value)

theorem testimony_plain (plain : compactSkip attempt = false) (locked : memory.locked =
      (vote.locked.map fun lock => (lock.round, lock.value)).map
        fun lock => (lock.1, setting.valueId lock.2)) :
    Testimony setting attempt carried memory vote := by
  cases reported : vote.locked with
  | none =>
    rw [reported] at locked
    exact .nothing locked reported (fun compact => by simp [plain] at compact)
  | some lock =>
    have reports := TmSkipVote.reports_of_locked reported attempt
    rw [plain] at reports
    rw [reported] at locked
    exact .own lock reports locked

theorem testimony_compact {locked : Option (Nat × Nat × Text)} (compact : compactSkip attempt = true)
    (lockedIs : locked = vote.locked.map fun lock =>
      ((vote.lockAttempt attempt).getD attempt, lock.round, lock.value))
    (told : (∃ round text, locked = some (attempt, round, text) ∧
        memory.locked = some (round, setting.valueId text)) ∨
      (memory.locked = none ∧
        locked = carried.map fun lock => (lock.attempt.getD attempt, lock.round, lock.value))) :
    Testimony setting attempt carried memory vote := by
  cases reported : vote.locked with
  | none =>
    rw [reported] at lockedIs
    subst lockedIs
    rcases told with ⟨round, text, impossible, -⟩ | ⟨unlocked, same⟩
    · cases impossible
    · exact .nothing unlocked reported (fun _ => by simpa using same.symm)
  | some lock =>
    have reports := TmSkipVote.reports_of_locked reported attempt
    rw [reported, reports.2] at lockedIs
    subst lockedIs
    rcases told with ⟨round, text, same, locked⟩ | ⟨unlocked, same⟩
    · simp only [Option.map_some, Option.getD_some, Option.some.injEq, Prod.mk.injEq] at same
      obtain ⟨here, rfl, rfl⟩ := same
      rw [here] at reports
      exact .own lock reports locked
    · cases bound : carried with
      | none =>
        rw [bound] at same
        cases same
      | some base =>
        rw [bound] at same
        simp only [Option.map_some, Option.getD_some, Option.some.injEq, Prod.mk.injEq] at same
        obtain ⟨sameAttempt, sameRound, sameValue⟩ := same
        rw [sameAttempt] at reports
        exact .inherited lock base unlocked compact rfl reports sameRound sameValue

theorem Recorded.giveUp (recorded : Recorded setting made) (correct : vote.voter ∉ setting.faulty)
    (sigIs : vote.sig = ⟨vote.voter, vote.message setting.height attempt⟩)
    (signedIt : made vote.sig) :
    ∃ signed members carried memory, (∀ message, made ⟨vote.voter, message⟩ ↔ message ∈ signed) ∧
      Record setting made vote.voter signed attempt members carried memory ∧
      Testimony setting attempt carried memory vote := by
  obtain ⟨signed, madeIff, records⟩ := recorded vote.voter correct
  rw [sigIs] at signedIt
  have mem := (madeIff _).mp signedIt
  cases compact : compactSkip attempt
  all_goals
    rw [TmSkipVote.message, compact] at mem
    obtain ⟨members, carried, memory, record⟩ := records mem rfl
    refine ⟨signed, members, carried, memory, madeIff, record, ?_⟩
  case false => exact testimony_plain compact (record.gaveUp mem)
  case true => exact testimony_compact compact rfl (record.gaveUpV2 mem)

/-! ## Locks that are handed on -/

/-- Who backs a lock has signed a prevote for it. -/
theorem backer_made {source : Nat} {backing : List Address} (signed : ∀ sig ∈ lock.sigs, made sig) :
    ∀ voter ∈ lock.backers setting.height source backing, voter ∈ backing ∧
      made ⟨voter, .vote source .prevote setting.height lock.round lock.value⟩ := by
  intro voter mem
  obtain ⟨⟨name, sig⟩, inside, rfl⟩ := mem_map.mp (mem_dedup.mp mem)
  obtain ⟨inPol, verified⟩ := mem_filter.mp inside
  obtain ⟨member, isMember, both⟩ := any_eq_true.mp verified
  simp only [Bool.and_eq_true, decide_eq_true_eq] at both
  obtain ⟨rfl, sigOk⟩ := both
  have here := signed sig (mem_map.mpr ⟨(member, sig), inPol, rfl⟩)
  rw [tmSignatureOk_iff.mp sigOk] at here
  exact ⟨isMember, here⟩

/-- The prevotes behind a lock are a polka of its attempt. -/
theorem polkaAt_of_backed {source : Nat} {backing : List Address}
    (seated : setting.committeeForAttempt source = some backing)
    (backed : TmSkipVote.Backed setting.height source backing lock)
    (signed : ∀ sig ∈ lock.sigs, made sig) (counts : ¬ setting.Blank (setting.valueId lock.value)) :
    setting.PolkaAt made source lock.round (setting.valueId lock.value) := by
  have backer := @backer_made setting made lock source backing signed
  refine ⟨backing, seated, placesOf backing (lock.backers setting.height source backing),
    placesOf_subset _ _, ?_, ?_⟩
  · have many := length_le_card_placesOf (nodup_dedup _ :
      (lock.backers setting.height source backing).Nodup) fun voter mem => (backer voter mem).1
    exact (show quorumOf backing.length ≤ _ from backed).trans many
  · intro seat mem
    obtain ⟨voter, isBacker, place⟩ := mem_placesOf.mp mem
    refine Or.inr ⟨counts, ?_⟩
    intro v same
    cases same
    exact ⟨backing, voter, lock.value, seated, place, rfl, (backer voter isBacker).2⟩

/-- A carried lock comes from the attempt it names and has a polka there. -/
theorem Footing.carried_polka
    (footing : Footing setting made skips attempt members miners (some lock)) :
    ∃ source, lock.attempt = some source ∧ (∃ cert ∈ skips, source ≤ cert.attempt) ∧
      (¬ setting.Blank (setting.valueId lock.value) →
        setting.PolkaAt made source lock.round (setting.valueId lock.value)) := by
  obtain ⟨cert, inside, vote, source, reported, origin⟩ := carried_origin footing.chain rfl
  obtain ⟨backing, seated, backed⟩ := origin.backed
  refine ⟨source, origin.attempt, ⟨cert, inside, origin.earlier⟩, fun counts => ?_⟩
  rw [origin.round, origin.value] at *
  exact polkaAt_of_backed seated backed
    (footing.lock_signed inside origin.foremost.1 origin.foremost.2.1.1) counts

/-! ## Past a quorum of precommits -/

/-- A quorum of precommits of correct members. -/
def Sealed (setting : HeightSetting) (made : Signature → Prop) (attempt round : Nat)
    (value : ValueId) : Prop :=
  ¬ setting.Blank value ∧ ∃ members, setting.committeeForAttempt attempt = some members ∧
    ∃ voters, voters ⊆ Finset.range members.length \ setting.faultySeats members ∧
      quorumOf members.length ≤ voters.card ∧
      ∀ seat ∈ voters, setting.heardBy made attempt .precommit round seat (some value)

variable {height : Nat}

theorem giveUp_seats (accepted : cert.Accepted height members earlier best) :
    skipThresholdOf members.length ≤ (placesOf members (cert.votes.map TmSkipVote.voter)).card := by
  have many := length_le_card_placesOf accepted.distinct (by
    intro voter mem
    obtain ⟨vote, inside, rfl⟩ := mem_map.mp mem
    exact (accepted.each vote inside).seated)
  rw [length_map] at many
  exact accepted.enough.trans many

/-- A certificate has a give-up of a correct member. -/
theorem exists_correct_giveUp (accepted : cert.Accepted height members earlier best)
    (few : (setting.faultySeats members).card ≤ members.length - quorumOf members.length) :
    ∃ vote ∈ cert.votes, vote.voter ∉ setting.faulty := by
  have many := giveUp_seats accepted
  unfold skipThresholdOf at many
  obtain ⟨seat, mem, correct⟩ := Finset.exists_mem_notMem_of_card_lt_card
    (show (setting.faultySeats members).card <
      (placesOf members (cert.votes.map TmSkipVote.voter)).card by omega)
  obtain ⟨voter, isVoter, place⟩ := mem_placesOf.mp mem
  obtain ⟨vote, inside, rfl⟩ := mem_map.mp isVoter
  exact ⟨vote, inside, HeightSetting.not_faulty_of_seat place correct⟩

theorem mem_sigs_of_vote (mem : vote ∈ cert.votes) : vote.sig ∈ cert.sigs :=
  mem_flatMap.mpr ⟨vote, mem, mem_cons_self⟩

theorem rank_handedOn (compact : compactSkip cert.attempt = true) (source : Nat) (reported : TmLock) :
    (TmSkipCert.handedOn cert.attempt source reported).rank = toLex (source, reported.round) := by
  rw [TmSkipCert.handedOn, compact]
  rfl

variable (recorded : Recorded setting made)

include recorded

/-- A certificate past a sealed value reports a lock at least as late. -/
theorem Recorded.reports_sealed (isSealed : Sealed setting made cert.attempt round value)
    (seated : setting.committeeForAttempt cert.attempt = some members)
    (accepted : cert.Accepted setting.height members earlier best)
    (signed : ∀ sig ∈ cert.sigs, made sig) :
    ∃ vote ∈ cert.votes, ∃ lock, vote.Reports cert.attempt cert.attempt lock ∧ round ≤ lock.round := by
  obtain ⟨counts, there, seatedThere, voters, inside, large, heard⟩ := isSealed
  obtain rfl := Option.some.inj (seatedThere.symm.trans seated)
  have many := giveUp_seats accepted
  obtain ⟨seat, voted, gaveUp, -⟩ := exists_correct_in_both (inside.trans Finset.sdiff_subset)
    (placesOf_subset there (cert.votes.map TmSkipVote.voter))
    (show (Finset.range there.length).card + (∅ : Finset Nat).card < _ by
      rw [Finset.card_range, Finset.card_empty]
      unfold skipThresholdOf at many
      omega)
  have correct := (Finset.mem_sdiff.mp (inside voted)).2
  obtain ⟨voter, isVoter, place⟩ := mem_placesOf.mp gaveUp
  obtain ⟨vote, mem, rfl⟩ := mem_map.mp isVoter
  obtain ⟨said, others, carried, memory, madeIff, record, testimony⟩ :=
    recorded.giveUp (HeightSetting.not_faulty_of_seat place correct)
      (accepted.each vote mem).signed (signed _ (mem_sigs_of_vote mem))
  cases record.seated.symm.trans seated
  obtain ⟨ownSeat, -, ok⟩ := record.seat
  -- Who has precommitted holds a lock at least as late, and reports it.
  obtain ⟨-, held, locked, notEarlier⟩ := ok.precommitLocked
    (record.remembers madeIff place counts (heard seat voted))
  cases testimony with
  | own lock reports lockIs =>
    cases lockIs.symm.trans locked
    exact ⟨vote, mem, lock, reports, notEarlier⟩
  | nothing unlocked | inherited _ _ unlocked => cases unlocked.symm.trans locked

/-- A chain of one certificate per attempt carries a lock at least as late as a sealed
value it goes past. -/
theorem Recorded.carries_plain (isSealed : Sealed setting made attempt round value)
    {locks : List (Option TmLock)} (verified : setting.verifySkips 0 skips = .ok (miners, locks))
    (short : skips.length ≤ tmMaxAttempt) (past : attempt < skips.length)
    (signed : ∀ cert ∈ skips, ∀ sig ∈ cert.sigs, made sig) :
    ∃ lock, carriedLock locks = some lock ∧ toLex (attempt, round) ≤ lock.rank := by
  obtain ⟨size, each⟩ := HeightView.verifySkips_ok verified
  obtain ⟨place, members, best, seated, accepted, lockIs⟩ :=
    each attempt skips[attempt] (List.getElem?_eq_getElem past)
  rw [zero_add] at place seated
  have mem := List.getElem_mem past
  generalize skips[attempt] = cert at place accepted lockIs mem
  subst place
  obtain ⟨vote, inside, lock, reports, notEarlier⟩ :=
    recorded.reports_sealed isSealed seated accepted (signed cert mem)
  have plain : compactSkip cert.attempt = false := decide_eq_false (by omega)
  obtain ⟨source, reported, rfl, sourceIs, outranks⟩ := accepted.outranks inside reports
  obtain rfl := sourceIs plain
  have roundIs : round ≤ reported.round := by
    rcases Prod.Lex.toLex_le_toLex.mp outranks with impossible | ⟨-, later⟩
    · exact absurd impossible (lt_irrefl _)
    · exact notEarlier.trans later
  obtain ⟨index, last, notBefore, carried, there⟩ := carriedLock_from lockIs
  refine ⟨last, carried, ?_⟩
  have inRange : index < skips.length := by
    rw [← size]
    exact (List.getElem?_eq_some_iff.mp there).1
  obtain ⟨lastPlace, -, lastBest, -, -, lastIs⟩ :=
    each index skips[index] (List.getElem?_eq_getElem inRange)
  rcases eq_or_lt_of_le notBefore with same | after
  · rw [← same, lockIs] at there
    cases there
    refine Prod.Lex.toLex_le_toLex.mpr (Or.inr ⟨rfl, ?_⟩)
    rw [TmSkipCert.handedOn_round]
    exact roundIs
  · rw [there] at lastIs
    obtain ⟨-, -, rfl⟩ := Option.map_eq_some_iff.mp (Option.some.inj lastIs).symm
    refine Prod.Lex.toLex_le_toLex.mpr (Or.inl ?_)
    show cert.attempt < skips[index].attempt
    omega

/-- The give-ups of a later attempt pass on what the attempt was opened with. -/
theorem Recorded.reports_inherited (few : setting.FewFaulty)
    (seated : setting.committeeForAttempt cert.attempt = some members)
    (accepted : cert.Accepted setting.height members earlier best)
    (signed : ∀ sig ∈ cert.sigs, made sig) (compact : compactSkip cert.attempt = true)
    (after : attempt < cert.attempt)
    (opened : ∀ {skips members miners carried},
      Footing setting made skips cert.attempt members miners carried →
        ∃ lock, carried = some lock ∧ toLex (attempt, round) ≤ lock.rank) :
    ∃ vote ∈ cert.votes, ∃ source lock, vote.Reports cert.attempt source lock ∧
      toLex (attempt, round) ≤ toLex (source, lock.round) := by
  have fewHere := few.seats cert.attempt
  rw [HeightSetting.membersAt_eq seated] at fewHere
  obtain ⟨vote, mem, correct⟩ := exists_correct_giveUp accepted fewHere
  obtain ⟨said, others, carried, memory, -, record, testimony⟩ :=
    recorded.giveUp correct (accepted.each vote mem).signed (signed _ (mem_sigs_of_vote mem))
  obtain ⟨skips, miners, opening⟩ := record.opens
  obtain ⟨base, rfl, notEarlier⟩ := opened opening.toFooting
  obtain ⟨source, attemptIs, -, -⟩ := opening.toFooting.carried_polka
  cases testimony with
  | own lock reports =>
    exact ⟨vote, mem, cert.attempt, lock, reports, Prod.Lex.toLex_le_toLex.mpr (Or.inl after)⟩
  | nothing _ _ free => cases free compact
  | inherited lock other _ _ bound reports sameRound =>
    cases bound
    rw [attemptIs] at reports
    refine ⟨vote, mem, source, lock, reports, ?_⟩
    rw [sameRound]
    rw [TmLock.rank, attemptIs] at notEarlier
    exact notEarlier

/-- Every chain that leads past a sealed value carries a lock at least as late. -/
theorem Recorded.carries (few : setting.FewFaulty)
    (isSealed : Sealed setting made attempt round value) (past : attempt < later)
    (footing : Footing setting made skips later members miners carried)
    (before : ∀ cert ∈ skips, cert.attempt < later) :
    ∃ lock, carried = some lock ∧ toLex (attempt, round) ≤ lock.rank := by
  -- Strong induction on the attempt the chain opens: a compact chain shows one
  -- certificate only, and the rest is in the records of those who gave up there.
  induction later using Nat.strong_induction_on generalizing skips members miners carried with
  | _ later ih =>
    obtain ⟨attemptIs, chain, signed, -⟩ := footing
    rcases (skipChain_ok chain).2 with ⟨plain, chainMiners, locks, verified, carriedIs, -⟩ |
      ⟨compact, last, previous, rfl, seated, accepted⟩
    · have length := attemptOf_of_verifySkips verified plain
      dsimp only at carriedIs
      rw [carriedIs]
      exact recorded.carries_plain isSealed verified (length ▸ plain)
        (by rw [← length, attemptIs]; exact past) signed
    · have lastBefore := before last (mem_singleton_self last)
      have lastSigned := signed last (mem_singleton_self last)
      have nextIs : last.attempt + 1 = later := by
        simp only [attemptOf, List.getLast?_singleton, satAdd32] at attemptIs
        omega
      have above : compactSkip last.attempt = true := decide_eq_true (by omega)
      have reported : ∃ vote ∈ last.votes, ∃ source lock, vote.Reports last.attempt source lock ∧
            toLex (attempt, round) ≤ toLex (source, lock.round) := by
        rcases eq_or_lt_of_le (show attempt ≤ last.attempt by omega) with same | after
        · subst same
          obtain ⟨vote, mem, lock, reports, notEarlier⟩ :=
            recorded.reports_sealed isSealed seated accepted lastSigned
          exact ⟨vote, mem, last.attempt, lock, reports,
            Prod.Lex.toLex_le_toLex.mpr (Or.inr ⟨rfl, notEarlier⟩)⟩
        · refine recorded.reports_inherited few seated accepted lastSigned above after ?_
          intro skips members miners carried opened
          refine ih last.attempt lastBefore after opened fun cert mem => ?_
          have proper := attempt_lt_of_mem opened.chain mem (Or.inl (by
            rw [opened.attemptIs]
            simp only [attemptOf, List.getLast?_singleton, satAdd32] at attemptIs
            omega))
          rw [opened.attemptIs] at proper
          exact proper
      obtain ⟨vote, mem, source, lock, reports, notEarlier⟩ := reported
      obtain ⟨bestSource, best, rfl, -, outranks⟩ := accepted.outranks mem reports
      refine ⟨_, rfl, ?_⟩
      rw [rank_handedOn above]
      exact notEarlier.trans outranks

/-! ## The relay of committees -/

def HeightSetting.relay (setting : HeightSetting) (made : Signature → Prop)
    (few : setting.FewFaulty) : Relay Nat ValueId where
  committee attempt := committeeOf (setting.membersAt attempt).length
    (setting.faultySeats (setting.membersAt attempt)) (few.seats attempt)
  votes := setting.votesAt made

variable (few : setting.FewFaulty)

theorem Recorded.relay_disciplined : (setting.relay made few).Disciplined := by
  intro attempt seat inside correct
  cases seated : setting.committeeForAttempt attempt with
  | none =>
    have nobody : (setting.membersAt attempt).length = 0 := by
      rw [HeightSetting.membersAt, seated]
      rfl
    have below := Finset.mem_range.mp inside
    omega
  | some members =>
    obtain rfl := HeightSetting.membersAt_eq seated
    exact recorded.disciplined seated (few.seats attempt) correct

omit recorded in
theorem relay_polka (polka : setting.PolkaAt made attempt round value) :
    (setting.relay made few).Polka attempt round value := by
  obtain ⟨members, seated, polka⟩ := polka
  obtain rfl := HeightSetting.membersAt_eq seated
  exact backed_of_seats (few.seats attempt) polka

/-- Behind a polka there is a correct voter, whose vote fits what it is bound to. -/
theorem Recorded.polka_fits {few : setting.FewFaulty}
    (polka : (setting.relay made few).Polka attempt round value) :
    ∃ address signed members carried memory,
      Record setting made address signed attempt members carried memory ∧
      Fits setting.Accepts (setting.boundBy carried) value := by
  obtain ⟨seat, -, correct, counts, heard⟩ := LockVoting.Committee.Backed.correct polka
  cases seated : setting.committeeForAttempt attempt with
  | none =>
    obtain ⟨members, -, -, found, -⟩ := heard value rfl
    cases seated.symm.trans found
  | some members =>
    obtain rfl := HeightSetting.membersAt_eq seated
    obtain ⟨address, signed, carried, memory, -, -, -, record, voted⟩ :=
      recorded.seat seated correct heard
    exact ⟨address, signed, _, carried, memory, record, record.voted (voted counts heard)⟩

omit recorded in
/-- Of two locks that a lock is compared with, the carried one names the same value. -/
theorem valueId_of_fits (fits : Fits setting.Accepts (setting.boundBy carried) value)
    (bound : carried = some lock) : value = setting.valueId lock.value :=
  fits.2 _ (by rw [bound]; rfl)

/-- A committee after a sealed value backs only what was backed before it. -/
theorem Recorded.inherits (clean : setting.Clean made)
    (isSealed : Sealed setting made attempt round value) :
    (setting.relay made few).Inherits attempt round := by
  intro later laterRound other past polka
  obtain ⟨address, signed, members, carried, memory, record, fits⟩ := recorded.polka_fits polka
  obtain ⟨skips, miners, opening⟩ := record.opens
  obtain ⟨first, descends⟩ := opening.anchored clean few
  obtain ⟨firstSkips, firstMembers, firstMiners, footing, before⟩ := descends.opens
  obtain ⟨base, rfl, notEarlier⟩ := recorded.carries few isSealed past footing before
  obtain ⟨lock, older, source, carriedIs, sameValue, sourceIs, earlier, newer, olderPolka, -⟩ :=
    descends.inherits (by simp)
  refine ⟨source, older.round, earlier, ?_, ?_⟩
  · have rankIs : older.rank = toLex (source, older.round) := by
      rw [TmLock.rank, sourceIs]
      rfl
    rw [← rankIs]
    exact notEarlier.trans (newer base rfl)
  · rw [valueId_of_fits fits carriedIs, sameValue]
    exact relay_polka few olderPolka

omit recorded

/-- Sealed values are commits of the relay. -/
theorem relay_commit {few : setting.FewFaulty} (isSealed : Sealed setting made attempt round value) :
    (setting.relay made few).Commit attempt round value := by
  obtain ⟨counts, members, seated, voters, inside, large, heard⟩ := isSealed
  obtain rfl := HeightSetting.membersAt_eq seated
  exact ⟨voters, inside.trans Finset.sdiff_subset, large,
    fun seat mem => Or.inr ⟨counts, heard seat mem⟩⟩

section

variable (clean : setting.Clean made) (isSealed : Sealed setting made attempt round value)

include recorded few clean isSealed

variable {laterRound : Nat} {other : ValueId}

/-- From a sealed value on, every polka is for that value. -/
theorem Recorded.sealed_pins (notBefore : toLex (attempt, round) ≤ toLex (later, laterRound))
    (polka : setting.PolkaAt made later laterRound other) : other = value :=
  LockVoting.Relay.polka_pinned (recorded.relay_disciplined few) (relay_commit isSealed)
    (recorded.inherits few clean isSealed) notBefore (relay_polka few polka)

/-- No two values are sealed. -/
theorem Recorded.sealed_unique (secondSealed : Sealed setting made later laterRound other) :
    value = other :=
  LockVoting.Relay.commit_unique (recorded.relay_disciplined few) (relay_commit isSealed)
    (recorded.inherits few clean isSealed) (relay_commit secondSealed)
    (recorded.inherits few clean secondSealed)

end

/-! ## What every chain rests on -/

theorem Footing.descends (clean : setting.Clean made)
    (footing : Footing setting made skips attempt members miners carried)
    (before : ∀ cert ∈ skips, cert.attempt < attempt) :
    Descends setting made attempt carried carried := by
  refine ⟨⟨skips, members, miners, footing, before⟩, fun some => ?_⟩
  obtain ⟨lock, rfl⟩ := Option.ne_none_iff_exists'.mp some
  obtain ⟨source, sourceIs, ⟨cert, mem, notAfter⟩, polka⟩ := footing.carried_polka
  refine ⟨lock, lock, source, rfl, rfl, sourceIs, lt_of_le_of_lt notAfter (before cert mem),
    ?_, polka (clean footing), Or.inl rfl⟩
  rintro base same
  rw [Option.some.inj same]

section

include recorded

/-- The committee of the largest attempt replaces itself: what the new round of it starts
with goes back to what the old one started with. -/
theorem Recorded.descends_again (clean : setting.Clean made) (few : setting.FewFaulty)
    {last : TmSkipCert} {previous : List Address} (compact : compactSkip last.attempt = true)
    (footing : Footing setting made [last] last.attempt members miners carried)
    (seated : setting.committeeForAttempt last.attempt = some previous)
    (accepted : last.Accepted setting.height previous setting.committeeForAttempt carried) :
    ∃ first, Descends setting made last.attempt first carried := by
  have fewHere := few.seats last.attempt
  rw [HeightSetting.membersAt_eq seated] at fewHere
  obtain ⟨vote, mem, correct⟩ := exists_correct_giveUp accepted fewHere
  obtain ⟨said, others, before, memory, -, record, testimony⟩ :=
    recorded.giveUp correct (accepted.each vote mem).signed
      (footing.signed last (mem_singleton_self last) _ (mem_sigs_of_vote mem))
  obtain ⟨skips, oldMiners, opening⟩ := record.opens
  obtain ⟨first, descends⟩ := opening.anchored clean few
  -- Without a lock at the start there is nothing to go back to.
  by_cases free : first = none
  · subst free
    exact ⟨none, descends.opens, absurd rfl⟩
  obtain ⟨lock, older, source, rfl, -, sourceIs, earlier, newer, polka, kind⟩ :=
    descends.inherits free
  have reported : ∃ lockAttempt told, vote.Reports last.attempt lockAttempt told ∧
      (lockAttempt = last.attempt ∨ lock = older ∧ toLex (lockAttempt, told.round) = older.rank) := by
    cases testimony with
    | own told reports => exact ⟨_, told, reports, Or.inl rfl⟩
    | nothing _ _ nothing => cases nothing compact
    | inherited told base _ _ bound reports sameRound =>
      cases bound
      refine ⟨_, told, reports, ?_⟩
      rcases kind with rfl | here
      · right
        rw [sameRound, TmLock.rank, sourceIs]
        exact ⟨rfl, rfl⟩
      · rw [here]
        exact Or.inl rfl
  obtain ⟨lockAttempt, told, reports, rankIs⟩ := reported
  obtain ⟨bestSource, best, rfl, -, outranks⟩ := accepted.outranks mem reports
  obtain ⟨origin, originIs, ⟨cert, inside, notAfter⟩, bestPolka⟩ := footing.carried_polka
  obtain rfl := mem_singleton.mp inside
  have bestPolka := bestPolka (clean footing)
  have bestIs := rank_handedOn compact bestSource best
  generalize TmSkipCert.handedOn cert.attempt bestSource best = chosen at *
  obtain rfl : origin = bestSource := by
    have ranks : toLex (chosen.attempt.getD 0, chosen.round) = toLex (bestSource, best.round) := bestIs
    rw [originIs] at ranks
    exact (Prod.mk.inj (toLex_inj.mp ranks)).1
  rcases lt_or_eq_of_le notAfter with older' | same
  · -- The best lock comes from an earlier attempt; it is no older than the one passed on.
    rcases rankIs with rfl | ⟨-, rankIs⟩
    · rcases Prod.Lex.toLex_le_toLex.mp outranks with impossible | ⟨impossible, -⟩
      · omega
      · omega
    · refine ⟨first, descends.opens, fun _ => ⟨chosen, chosen, origin, rfl, rfl, originIs, older', ?_,
        bestPolka, Or.inl rfl⟩⟩
      intro base isBase
      rw [bestIs]
      exact (newer base isBase).trans (rankIs ▸ outranks)
  · -- The best lock comes from this attempt: its polka has a correct voter, who was
    -- bound to what the attempt started with.
    subst same
    obtain ⟨address, signed, voters, bound, memory', record', fits⟩ :=
      recorded.polka_fits (relay_polka few bestPolka)
    obtain ⟨skips', miners', opening'⟩ := record'.opens
    obtain ⟨first', descends'⟩ := opening'.anchored clean few
    refine ⟨first', descends'.opens, fun some => ?_⟩
    obtain ⟨lock', older', source', boundIs, sameValue', sourceIs', earlier', newer', polka', -⟩ :=
      descends'.inherits some
    exact ⟨chosen, older', source', rfl, (valueId_of_fits fits boundIs).trans sameValue', sourceIs',
      earlier', newer', polka', Or.inr originIs⟩

theorem Recorded.anchored (footing : Footing setting made skips attempt members miners carried) :
    Anchored setting made attempt carried := by
  intro clean few
  by_cases before : ∀ cert ∈ skips, cert.attempt < attempt
  · exact ⟨carried, footing.descends clean before⟩
  push Not at before
  obtain ⟨cert, mem, notBefore⟩ := before
  have attemptIs := footing.attemptIs
  rcases (skipChain_ok footing.chain).2 with ⟨plain, -⟩ |
    ⟨compact, last, previous, rfl, seated, accepted⟩
  · have proper := attempt_lt_of_mem footing.chain mem (Or.inl (lt_of_le_of_lt plain (by decide)))
    omega
  obtain rfl := mem_singleton.mp mem
  have small := footing.numbers cert (mem_singleton_self cert)
  obtain rfl : attempt = cert.attempt := by
    simp only [attemptOf, List.getLast?_singleton, satAdd32] at attemptIs
    omega
  rw [attemptIs] at compact
  exact recorded.descends_again clean few (decide_eq_true (le_of_lt compact)) footing seated
    accepted

/-- When nobody is faulty, no lock on the blank value is handed on. -/
theorem Recorded.accepted (footing : Footing setting made skips attempt members miners (some lock)) :
    setting.Accepts (setting.valueId lock.value) := by
  intro noFaulty
  obtain ⟨cert, inside, vote, source, reported, origin⟩ := carried_origin footing.chain rfl
  have reports := origin.foremost.2.1
  obtain ⟨said, others, before, memory, -, record, testimony⟩ :=
    recorded.giveUp (by simp [noFaulty]) origin.signed
      (footing.signed cert inside _ (mem_sigs_of_vote origin.foremost.1))
  rw [origin.value]
  cases testimony with
  | own told again locked =>
    obtain ⟨-, rfl⟩ := reports.unique again
    exact (record.locked locked).1 noFaulty
  | nothing _ silent => exact absurd reports (TmSkipVote.not_reports silent)
  | inherited told base _ _ bound again _ sameValue =>
    obtain ⟨-, rfl⟩ := reports.unique again
    obtain ⟨skips, miners, opening⟩ := record.opens
    rw [sameValue]
    exact opening.accepted bound noFaulty

theorem Recorded.opening (footing : Footing setting made skips attempt members miners carried) :
    Opening setting made skips attempt members miners carried :=
  { footing with
    accepted := by
      rintro lock rfl
      exact recorded.accepted footing
    anchored := recorded.anchored footing }

theorem Recorded.clean (noFaulty : setting.faulty = []) : setting.Clean made :=
  fun footing => recorded.accepted footing noFaulty

end

end Records

end EgoChain.Consensus
