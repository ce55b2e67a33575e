import EgoChain.Consensus.Finality

/-!
# The certificates that drivers assemble

The engine counts votes by value id, while a certificate is checked against the
hash text that each vote was signed over.  Two texts that differ in the case of
their digits name one value id, so that a member who signs the other text is
counted and its vote is put into a certificate that nobody accepts.

The check also asks for the block's miner and for the text of the lock that the
attempt started with; the driver keeps the first block it is shown for a value id,
whoever mined it.
-/

namespace EgoChain.Consensus

open EgoChain.Foundations List Option

/-- What the driver has stored for the value it decided is what the check of a certificate
asks for: the block is of this height, by one of the miners and as the lock has it, and the
precommits of the first members were signed over the block's own hash text. -/
def Driver.Certifiable (setting : HeightSetting) (driver : Driver) : Prop :=
  ∀ {round value block kept}, driver.decided = some (round, value) →
    driver.payloads.lookup value = some block →
    driver.sigs.lookup (.precommit, round, value) = some kept →
    block.height = setting.height ∧ block.miner ∈ driver.miners ∧
      (∀ lock, driver.carried = some lock → lock.value = block.hash) ∧
      ∀ entry ∈ kept.ascending.take (quorumOf driver.members.length), entry.2.message =
        tmVoteMessageAt driver.attempt .precommit setting.height round (some block.hash)

section Votes

variable {setting : HeightSetting} {address : Address} {made : Signature → Prop}
  {session : Session} {round : Nat} {value : ValueId} {kept : KeyedMap Nat Signature}

section

variable (ok : session.Ok setting made address)
  (found : session.sigs.lookup (.precommit, round, value) = some kept)

include ok found

/-- The member at a kept precommit's seat is the one who signed it. -/
theorem Session.Ok.precommit_by {seat : Nat} {sig : Signature} (there : (seat, sig) ∈ kept.ascending) :
    session.members.idxOf? (session.members.getD seat []) = some seat ∧
      session.members.getD seat [] ∈ session.members ∧
      ∃ text, sig = ⟨session.members.getD seat [],
        .vote session.attempt .precommit setting.height round text⟩ := by
  obtain ⟨voter, text, place, -, rfl⟩ :=
    ok.tables.precommits found ((kept.mem_ascending seat sig).mp there)
  obtain ⟨inside, isVoter, -⟩ := List.idxOf?_eq_some_iff.mp place
  have seatIs : session.members.getD seat [] = voter := by
    rw [getD_eq_getElem?_getD, List.getElem?_eq_getElem inside]
    exact isVoter
  rw [seatIs]
  exact ⟨place, isSome_idxOf?.mp (by simp [place]), text, rfl⟩

/-- The first kept precommits pass as votes exactly when all were signed over the message
that is asked for. -/
theorem Session.Ok.chosen_ok_iff {cert : TmCert} {message : Message}
    (enough : quorumOf session.members.length ≤ kept.entries.length)
    (votesAre : cert.votes = (session.listSigs kept).take (quorumOf session.members.length)) :
    cert.verifyVotes session.members message = .ok () ↔
      ∀ entry ∈ kept.ascending.take (quorumOf session.members.length), entry.2.message = message := by
  have chosen : cert.votes = (kept.ascending.take (quorumOf session.members.length)).map
      fun entry => (session.members.getD entry.1 [], entry.2) := by
    rw [votesAre, Driver.listSigs, map_take]
  have many : quorumOf session.members.length ≤ cert.votes.length := by
    rw [chosen, length_map, length_take, kept.length_ascending]
    omega
  have distinct : (cert.votes.map Prod.fst).Nodup := by
    rw [chosen, List.map_map]
    have keys := ((take_sublist (quorumOf session.members.length) kept.ascending).map
      Prod.fst).nodup kept.ascending_keys_nodup
    refine (List.Nodup.of_map _ keys).map_on fun entry mem other otherMem same => ?_
    have place := (ok.precommit_by found (mem_of_mem_take mem)).1
    have otherPlace := (ok.precommit_by found (mem_of_mem_take otherMem)).1
    dsimp at same
    rw [same] at place
    have sameSeat := Option.some.inj (place.symm.trans otherPlace)
    exact inj_on_of_nodup_map keys mem otherMem sameSeat
  rw [TmCert.verifyVotes_ok_iff, and_iff_right many, and_iff_right distinct, chosen]
  constructor
  · intro each entry mem
    rw [(each _ (mem_map_of_mem mem)).2]
  · intro each voteEntry mem
    obtain ⟨entry, inside, rfl⟩ := mem_map.mp mem
    obtain ⟨-, member, text, sigIs⟩ := ok.precommit_by found (mem_of_mem_take inside)
    refine ⟨member, ?_⟩
    have messageIs := each entry inside
    rw [sigIs] at messageIs ⊢
    rw [← messageIs]

/-- Votes for a block of another height never pass. -/
theorem Session.Ok.chosen_height {height : Nat} {hash : Text}
    (enough : quorumOf session.members.length ≤ kept.entries.length)
    (each : ∀ entry ∈ kept.ascending.take (quorumOf session.members.length), entry.2.message =
      tmVoteMessageAt session.attempt .precommit height round (some hash)) :
    height = setting.height := by
  have nonempty : 0 < (kept.ascending.take (quorumOf session.members.length)).length := by
    rw [length_take, kept.length_ascending]
    unfold quorumOf at *
    omega
  have mem := getElem_mem nonempty
  generalize (kept.ascending.take (quorumOf session.members.length))[0] = entry at mem
  obtain ⟨-, -, text, sigIs⟩ := ok.precommit_by found (mem_of_mem_take mem)
  have messageIs := each entry mem
  rw [sigIs] at messageIs
  injection messageIs with _ _ sameHeight
  exact sameHeight.symm

end

end Votes

/-! ## When the certificate is accepted -/

theorem skipChain_nil {view : HeightView} {chain : SkipChain}
    (ok : view.skipChain [] = .ok chain) : chain.miners = chain.committee ∧ chain.carried = none := by
  obtain ⟨-, ⟨-, miners, locks, verified, carried, minersAre⟩ | ⟨late, -⟩⟩ :=
    HeightView.skipChain_ok ok
  · obtain ⟨rfl, rfl⟩ := Prod.mk.inj (Except.ok.inj verified)
    exact ⟨minersAre, carried⟩
  · exact absurd late (by decide)

theorem skips_of_attempt_zero {skips : List TmSkipCert} (first : attemptOf skips = 0) : skips = [] := by
  rcases eq_nil_or_concat skips with none | ⟨rest, last, rfl⟩
  · exact none
  · rw [concat_eq_append, attemptOf_append] at first
    unfold satAdd32 maxU32 at first
    omega

variable {setting : HeightSetting}

/-- The check of an assembled certificate, in terms of what the driver has stored. -/
theorem Session.Ok.verify_iff {address : Address}
    {made : Signature → Prop} {session : Session} (ok : session.Ok setting made address)
    (begun : (setting.committeeForAttempt 0).isSome) {block : Block} {cert : TmCert}
    (assembled : session.assemble = some (block, cert)) :
    setting.verifyBlockCertificate block cert = .ok () ↔ session.Certifiable setting := by
  obtain ⟨value, kept, decided, known, found, enough, certIs⟩ := assemble_some assembled
  have opening := ok.opening.toFooting
  have certifiable : session.Certifiable setting ↔ block.miner ∈ session.miners ∧
        (∀ lock, session.carried = some lock → lock.value = block.hash) ∧
        ∀ entry ∈ kept.ascending.take (quorumOf session.members.length), entry.2.message =
          tmVoteMessageAt session.attempt .precommit block.height cert.round (some block.hash) := by
    constructor
    · intro all
      obtain ⟨height, rest⟩ := all decided known found
      rw [height]
      exact rest
    · rintro ⟨miner, carried, each⟩ round other payload votes decidedToo knownToo foundToo
      cases decided.symm.trans decidedToo
      cases known.symm.trans knownToo
      cases found.symm.trans foundToo
      have height := ok.chosen_height found enough each
      rw [height] at each
      exact ⟨height, miner, carried, each⟩
  have votesAre : cert.votes = (session.listSigs kept).take (quorumOf session.members.length) := by
    rw [certIs]
    split <;> rfl
  rw [certifiable, ← ok.chosen_ok_iff found enough votesAre]
  unfold HeightView.verifyBlockCertificate
  split at certIs
  case isTrue first =>
    have bare := skips_of_attempt_zero (opening.attemptIs.trans first)
    have chain := opening.chain
    rw [bare] at chain
    obtain ⟨minersAre, noLock⟩ := skipChain_nil chain
    dsimp only at minersAre noLock
    have seated := ok.seated
    rw [first] at seated
    simp only [seated]
    have kind : cert.v = tmCertVersion ∧ cert.attempt = 0 ∧ cert.skips = [] := by
      rw [certIs]
      exact ⟨rfl, rfl, rfl⟩
    rw [if_neg (by rw [kind.1]; decide), TmCert.verify_ok_iff, and_iff_right kind, first, minersAre,
      noLock]
    simp
  case isFalse later =>
    obtain ⟨committee, seated⟩ := isSome_iff_exists.mp begun
    have fields : cert.v = tmCertV4 ∧ cert.attempt = session.attempt ∧ cert.skips = session.skips := by
      rw [certIs]
      exact ⟨rfl, rfl, rfl⟩
    obtain ⟨version, attemptIs, skipsAre⟩ := fields
    simp only [seated]
    rw [if_pos version, HeightView.verifyReplacementCert_ok_iff, attemptIs, skipsAre,
      and_iff_right ⟨later, opening.attemptIs⟩]
    simp [opening.chain]

/-- Without a first committee nothing ever starts. -/
theorem Network.asleep (nobody : setting.committeeForAttempt 0 = none)
    {events : List NetworkEvent} {network after : Network}
    (asleep : ∀ address, (network address).driver = none ∧ (network address).wal = none)
    (ran : network.run setting events = some after) (address : Address) :
    (after address).driver = none ∧ (after address).wal = none := by
  induction events generalizing network with
  | nil =>
    cases ran
    exact asleep address
  | cons at' rest ih =>
    obtain ⟨-, ran⟩ := ite_none_right_eq_some.mp ran
    refine ih (fun other => ?_) ran
    unfold Network.step
    rw [Function.update_apply]
    split
    case isFalse => exact asleep other
    case isTrue =>
    obtain ⟨noDriver, noWal⟩ := asleep at'.address
    have noStart : ∀ able, Driver.build setting at'.address able
        (network at'.address).wal = none := by
      intro able
      have noChain : setting.skipChain [] = .error (.noCommittee 0) := by
        simp [HeightView.skipChain, HeightView.verifySkips, attemptOf, nobody]
      simp [Driver.build, noWal, noChain]
    cases event : at'.event with
    | begin able =>
      simp only [Host.change, noDriver, noStart]
      split <;> exact ⟨noDriver, noWal⟩
    | _ => simp [Host.change, noDriver, noWal]

/-- In every reachable state, the certificate a correct node assembles is accepted exactly
when what its driver has stored is in one text. -/
theorem assembled_certificate_accepted_iff (setting : HeightSetting)
    (events : List NetworkEvent) (network : Network)
    (ran : Network.initial.run setting events = some network) (address : Address)
    (correct : address ∉ setting.faulty) (driver : Driver)
    (running : (network address).driver = some driver) (block : Block) (cert : TmCert)
    (assembled : driver.assemble = some (block, cert)) :
    setting.verifyBlockCertificate block cert = .ok () ↔ driver.Certifiable setting := by
  have ok := ((Network.initial_ok setting).run ran address correct).running running
  have begun : (setting.committeeForAttempt 0).isSome := by
    by_contra missing
    have nobody := not_isSome_iff_eq_none.mp missing
    have asleep := (Network.asleep nobody (fun _ => ⟨rfl, rfl⟩) ran address).1
    cases running.symm.trans asleep
  exact ok.verify_iff begun assembled

/-! ## Runs -/

/-- A hash text of 64 digits `a`, and the same in capitals. -/
def lowerHash : Text := List.replicate 64 97
def upperHash : Text := List.replicate 64 65

/-- Members 1, 3 and 4 agree on a block; the faulty member 2 precommits it under a text of its own. -/
def namedRun (name : Text) : List NetworkEvent :=
  [.at' [1] (.begin true), .at' [3] (.begin true), .at' [4] (.begin true),
    .at' [1] (.propose (plainBlock lowerHash) true)] ++
  NetworkEvent.hearProposal [3] [1] 0 lowerHash ++ NetworkEvent.hearProposal [4] [1] 0 lowerHash ++
  [.hearVote [1] [3] 0 .prevote lowerHash, .hearVote [1] [4] 0 .prevote lowerHash,
    .hearVote [3] [1] 0 .prevote lowerHash, .hearVote [3] [4] 0 .prevote lowerHash,
    .hearVote [1] [2] 0 .precommit name, .hearVote [1] [3] 0 .precommit lowerHash]

/-- Member 1 can certify the block if the faulty member names it as the others do. -/
theorem votes_in_one_text_certify : ∃ (network : Network) (driver : Driver),
    Network.initial.run (fourSetting [[2]]) (namedRun lowerHash) = some network ∧
      (network [1]).driver = some driver ∧ driver.assemble.isSome ∧
      driver.Certifiable (fourSetting [[2]]) := by
  have certified : ∃ network ∈ Network.initial.run (fourSetting [[2]]) (namedRun lowerHash),
      ∃ driver ∈ (network [1]).driver, ∃ entry ∈ driver.assemble,
        (fourSetting [[2]]).verifyBlockCertificate entry.1 entry.2 = .ok () := by
    decide
  obtain ⟨network, ran, driver, running, ⟨block, cert⟩, assembled, verified⟩ := certified
  refine ⟨network, driver, ran, running, isSome_of_mem assembled, ?_⟩
  exact (assembled_certificate_accepted_iff (fourSetting [[2]]) _ network ran [1] (by decide) driver
    running block cert assembled).mp verified

/-- A correct node assembles a certificate that is refused for the vote of a faulty member. -/
theorem assembled_certificate_can_be_refused : ∃ (network : Network) (driver : Driver)
    (block : Block) (cert : TmCert),
    Network.initial.run (fourSetting [[2]]) (namedRun upperHash) = some network ∧
      (network [1]).driver = some driver ∧ driver.assemble = some (block, cert) ∧
      (fourSetting [[2]]).verifyBlockCertificate block cert = .error (.badVote [2]) := by
  have refused : ∃ network ∈ Network.initial.run (fourSetting [[2]]) (namedRun upperHash),
      ∃ driver ∈ (network [1]).driver, ∃ entry ∈ driver.assemble,
        (fourSetting [[2]]).verifyBlockCertificate entry.1 entry.2 = .error (.badVote [2]) := by
    decide
  obtain ⟨network, ran, driver, running, ⟨block, cert⟩, assembled, refused⟩ := refused
  exact ⟨network, driver, block, cert, ran, running, assembled, refused⟩

end EgoChain.Consensus
