import EgoChain.Consensus.ReplacementAgreement

/-!
# A finalized block and the committees after it

The give-ups of an attempt need one member more than a quorum leaves out.  They
meet every quorum, but perhaps only in a faulty member, who can precommit a block
and give up without a lock.  A finalized block therefore binds the committees after
it once a quorum of correct members have precommitted it.

A vote for nothing is signed like a vote for the empty text, so a quorum of
prevotes for nothing can be shown as a lock on the empty text.  Certificates that
report such a lock are left out here.
-/

namespace EgoChain.Consensus

open EgoChain.Foundations List
open EgoChain.Foundations.LockVoting (polka_after_commit)

/-- A block with an accepted certificate, which a quorum of correct members have precommitted in the
round of the certificate, in the certificate or beside it. -/
structure Finalized (setting : HeightSetting) (network : Network) (block : Block) (cert : TmCert)
    (members beside : List Address) : Prop where
  verified : setting.verifyBlockCertificate block cert = .ok ()
  signed : ∀ sig ∈ cert.sigs, network.Made setting sig
  height : block.height = setting.height
  named : ¬ setting.Blank (setting.valueId block.hash)
  seated : setting.committeeForAttempt cert.attempt = some members
  precommitted : ∀ voter ∈ beside, voter ∈ members ∧
    network.Made setting ⟨voter, .vote cert.attempt .precommit setting.height cert.round block.hash⟩
  many : quorumOf members.length ≤
    ((cert.votes.map Prod.fst ++ beside).dedup.filter (· ∉ setting.faulty)).length

variable {members beside : List Address}

section Finalized

variable {setting : HeightSetting} {network : Network} {block : Block} {cert : TmCert}
  (finalized : Finalized setting network block cert members beside)

include finalized

theorem Finalized.made {voter : Address} (mem : voter ∈ cert.votes.map Prod.fst ++ beside) :
    voter ∈ members ∧ network.Made setting
      ⟨voter, .vote cert.attempt .precommit setting.height cert.round block.hash⟩ := by
  rcases mem_append.mp mem with inCert | other
  · obtain ⟨committee, seated, votes⟩ := HeightView.votes_of_verifyBlockCertificate finalized.verified
    cases finalized.seated.symm.trans seated
    obtain ⟨-, -, each⟩ := TmCert.verifyVotes_ok_iff.mp votes
    obtain ⟨entry, inside, rfl⟩ := mem_map.mp inCert
    have made := finalized.signed entry.2 (mem_append_left _ (mem_map_of_mem inside))
    rw [(each entry inside).2, finalized.height] at made
    exact ⟨(each entry inside).1, made⟩
  · exact finalized.precommitted voter other

theorem Finalized.isSealed :
    Sealed setting (network.Made setting) cert.attempt cert.round (setting.valueId block.hash) := by
  have voters {voter : Address}
      (mem : voter ∈ (cert.votes.map Prod.fst ++ beside).dedup.filter (· ∉ setting.faulty)) :
      voter ∈ cert.votes.map Prod.fst ++ beside ∧ voter ∉ setting.faulty :=
    ⟨mem_dedup.mp (mem_of_mem_filter mem), of_decide_eq_true (mem_filter.mp mem).2⟩
  refine ⟨finalized.named, members, finalized.seated, placesOf members _, fun seat mem => ?_,
    finalized.many.trans (length_le_card_placesOf ((nodup_dedup _).filter _)
      fun voter mem => (finalized.made (voters mem).1).1), fun seat mem => ?_⟩
  · obtain ⟨voter, isVoter, place⟩ := mem_placesOf.mp mem
    refine Finset.mem_sdiff.mpr ⟨placesOf_subset _ _ mem, fun isFaulty => ?_⟩
    obtain ⟨other, faulty, samePlace⟩ := mem_placesOf.mp isFaulty
    exact (voters isVoter).2 (idxOf?_inj samePlace place ▸ faulty)
  · obtain ⟨voter, isVoter, place⟩ := mem_placesOf.mp mem
    rintro value same
    cases same
    exact ⟨members, voter, block.hash, finalized.seated, place, rfl,
      (finalized.made (voters isVoter).1).2⟩

end Finalized

section Carried

variable {setting : HeightSetting} {made : Signature → Prop} {round : Nat} {value : ValueId}
  {attempt later : Nat}

/-- Within the attempt of a sealed value, every later polka is for that value, whatever
happens in the other attempts. -/
theorem Recorded.sealed_pins_attempt (recorded : Recorded setting made) {other : ValueId}
    (isSealed : Sealed setting made attempt round value) (notBefore : round ≤ later)
    (polka : setting.PolkaAt made attempt later other) : other = value := by
  obtain ⟨counts, members, seated, voters, inside, large, heard⟩ := isSealed
  obtain ⟨there, seatedThere, polka⟩ := polka
  cases seated.symm.trans seatedThere
  have few : (setting.faultySeats members).card ≤ members.length - quorum members.length := by
    have atMost := Finset.card_le_card inside
    have seats : setting.faultySeats members ⊆ Finset.range members.length := placesOf_subset _ _
    rw [Finset.card_sdiff_of_subset seats, Finset.card_range] at atMost
    have large : quorum members.length ≤ voters.card := large
    have positive : 0 < quorum members.length := Nat.succ_pos _
    omega
  refine polka_after_commit (fun _ _ => recorded.disciplined seated few)
    ⟨voters, inside.trans Finset.sdiff_subset, large, ?_⟩ notBefore (backed_of_seats few polka)
  exact fun seat mem => Or.inr ⟨counts, heard seat mem⟩

/-- A certificate of the attempt in which a value was sealed carries a lock on it. -/
theorem Recorded.skip_carries_sealed (recorded : Recorded setting made) {cert : TmSkipCert}
    {earlier : Nat → Option (List Address)} {best : Option TmLock}
    (isSealed : Sealed setting made cert.attempt round value)
    (seated : setting.committeeForAttempt cert.attempt = some members)
    (accepted : cert.Accepted setting.height members earlier best)
    (signed : ∀ sig ∈ cert.sigs, made sig)
    (named : ∀ vote ∈ cert.votes, ∀ lock, vote.locked = some lock →
      ¬ setting.Blank (setting.valueId lock.value)) :
    ∃ lock, best = some lock ∧ setting.valueId lock.value = value := by
  obtain ⟨vote, mem, lock, reports, notEarlier⟩ :=
    recorded.reports_sealed isSealed seated accepted signed
  cases found : best with
  | none => exact absurd reports (TmSkipVote.not_reports (accepted.silent found vote mem))
  | some chosen =>
    obtain ⟨other, source, reported, ⟨isVote, reportsToo, foremost⟩, rfl⟩ := accepted.chosen found
    obtain ⟨notLater, backing, backed, place⟩ := (accepted.each other isVote).backed reportsToo
    -- The best lock is from this attempt, and no older than the sealed value.
    obtain ⟨rfl, later⟩ : source = cert.attempt ∧ round ≤ reported.round := by
      rcases Prod.Lex.toLex_le_toLex.mp (foremost vote mem _ _ reports) with before | ⟨same, after⟩
      · omega
      · exact ⟨same.symm, notEarlier.trans after⟩
    obtain rfl : backing = members := by
      rcases place with ⟨-, same⟩ | ⟨other, -⟩
      · exact same
      · exact absurd rfl other
    have polka := polkaAt_of_backed seated backed (fun sig inside => by
      refine signed sig (mem_flatMap.mpr ⟨other, isVote, ?_⟩)
      rw [TmSkipVote.sigs, reportsToo.1]
      exact mem_cons_of_mem _ inside) (named other isVote reported reportsToo.1)
    refine ⟨_, rfl, ?_⟩
    unfold TmSkipCert.handedOn
    split <;> exact recorded.sealed_pins_attempt isSealed later polka

/-- Every chain that opens a later attempt carries a lock on a sealed value. -/
theorem Recorded.chain_carries_sealed (recorded : Recorded setting made) (few : setting.FewFaulty)
    (clean : setting.Clean made) (isSealed : Sealed setting made attempt round value)
    (past : attempt < later) {skips : List TmSkipCert} {miners : List Address}
    {carried : Option TmLock} (footing : Footing setting made skips later members miners carried) :
    ∃ lock, carried = some lock ∧ setting.valueId lock.value = value := by
  obtain ⟨first, descends⟩ := recorded.anchored footing clean few
  obtain ⟨firstSkips, firstMembers, firstMiners, firstFooting, before⟩ := descends.opens
  obtain ⟨base, rfl, notEarlier⟩ := recorded.carries few isSealed past firstFooting before
  obtain ⟨lock, older, source, rfl, sameValue, sourceIs, -, newer, polka, -⟩ :=
    descends.inherits (by simp)
  refine ⟨lock, rfl, ?_⟩
  rw [sameValue]
  have rankIs : older.rank = toLex (source, older.round) := by
    rw [TmLock.rank, sourceIs]
    rfl
  exact recorded.sealed_pins few clean isSealed (rankIs ▸ notEarlier.trans (newer base rfl)) polka

/-- Where no correct member has prevoted nothing, no lock on it is carried. -/
theorem HeightSetting.FewFaulty.clean (few : setting.FewFaulty)
    (named : ∀ signer ∉ setting.faulty, ∀ attempt round text,
      made ⟨signer, .vote attempt .prevote setting.height round text⟩ →
        ¬ setting.Blank (setting.valueId text)) : setting.Clean made := by
  intro skips attempt members miners lock footing
  obtain ⟨cert, inside, vote, source, reported, origin⟩ := HeightView.carried_origin footing.chain rfl
  obtain ⟨backing, seated, backed⟩ := origin.backed
  have backer := @backer_made setting made reported source backing
    (footing.lock_signed inside origin.foremost.1 origin.foremost.2.1.1)
  obtain ⟨voter, isBacker, correct⟩ :
      ∃ voter ∈ reported.backers setting.height source backing, voter ∉ setting.faulty := by
    by_contra none'
    have allFaulty : (reported.backers setting.height source backing).toFinset ⊆
        setting.faultyAmong backing := fun voter mem => Finset.mem_filter.mpr
      ⟨mem_toFinset.mpr (backer voter (mem_toFinset.mp mem)).1,
        not_not.mp fun correct => none' ⟨voter, mem_toFinset.mp mem, correct⟩⟩
    have most := (Finset.card_le_card allFaulty).trans (few source backing seated)
    have distinct : (reported.backers setting.height source backing).Nodup := nodup_dedup _
    rw [toFinset_card_of_nodup distinct] at most
    have large : quorumOf backing.length ≤ (reported.backers setting.height source backing).length :=
      backed
    unfold quorumOf at most large
    omega
  rw [origin.value]
  exact named voter correct _ _ _ (backer voter isBacker).2

end Carried

/-- The give-ups of its own attempt and the openings of all later ones carry a lock on a
finalized block. -/
theorem replacements_carry_finalized_block (setting : HeightSetting) (events : List NetworkEvent)
    (network : Network) (ran : Network.initial.run setting events = some network) (block : Block)
    (cert : TmCert) (members beside : List Address)
    (finalized : Finalized setting network block cert members beside) :
    (∀ (skip : TmSkipCert) (earlier : Nat → Option (List Address)) (carried : Option TmLock),
      skip.attempt = cert.attempt → skip.verifyWith setting.height members earlier = .ok carried →
      (∀ sig ∈ skip.sigs, network.Made setting sig) →
      (∀ vote ∈ skip.votes, ∀ lock, vote.locked = some lock →
        ¬ setting.Blank (setting.valueId lock.value)) →
      ∃ lock, carried = some lock ∧ setting.valueId lock.value = setting.valueId block.hash) ∧
    (setting.FewFaulty → setting.Clean (network.Made setting) →
      ∀ (skips : List TmSkipCert) (chain : SkipChain), setting.skipChain skips = .ok chain →
      cert.attempt < attemptOf skips → (∀ skip ∈ skips, skip.attempt ≤ maxU32) →
      (∀ skip ∈ skips, ∀ sig ∈ skip.sigs, network.Made setting sig) →
      ∃ lock, chain.carried = some lock ∧ setting.valueId lock.value = setting.valueId block.hash) := by
  have recorded := ((Network.initial_ok setting).run ran).recorded
  have isSealed := finalized.isSealed
  constructor
  · intro skip earlier carried sameAttempt verified signed named
    have seated := finalized.seated
    rw [← sameAttempt] at isSealed seated
    exact recorded.skip_carries_sealed isSealed seated
      (TmSkipCert.accepted_of_verifyWith verified) signed named
  · intro few clean skips chain verified past numbers signed
    exact recorded.chain_carries_sealed few clean isSealed past ⟨rfl, verified, signed, numbers⟩

/-! ## Runs -/

/-- Four members in every attempt. -/
def fourSetting (faulty : List Address) : HeightSetting :=
  plainSetting faulty fun _ => some [[1], [2], [3], [4]]

variable (name : Text) (voter : Address) (voters : List Address)

def precommitOf : Address × Signature :=
  (voter, ⟨voter, .vote 0 .precommit 40000 0 name⟩)

def certOf : TmCert where
  v := tmCertVersion
  round := 0
  votes := voters.map (precommitOf name)

/-- The text that a prevote is for. -/
def Message.prevoted : Message → Option Text
  | .vote _ .prevote _ _ value => some value
  | _ => none

/-- Member 1 gives up with its lock, and the faulty member 4 without one. -/
def heldSkip : TmSkipCert where
  attempt := 0
  votes := [giveUpOf (some (lockOf 0 [7] [[1], [2], [3]])) [1], giveUpOf none [4]]

theorem fourSetting_fewFaulty : (fourSetting [[4]]).FewFaulty := by
  intro attempt members seated
  cases seated
  decide

/-- No lock on nothing is carried where members 1, 2 and 3 prevote one block. -/
theorem fourSetting_clean {network : Network} (ok : network.Ok (fourSetting [[4]]))
    (prevotes : ∀ member ∈ [[1], [2], [3]], ∀ message ∈ (network member).signed,
      message.prevoted = none ∨ message.prevoted = some [7]) :
    (fourSetting [[4]]).Clean (network.Made (fourSetting [[4]])) := by
  refine fourSetting_fewFaulty.clean fun signer correct attempt round text said => ?_
  obtain ⟨signed, madeIff, records⟩ := ok.recorded signer correct
  obtain ⟨members, carried, memory, record⟩ := records ((madeIff _).mp said) rfl
  cases record.seated
  obtain ⟨seat, place, -⟩ := record.seat
  have isMember : signer ∈ [[1], [2], [3]] ++ [[4]] := isSome_idxOf?.mp (Option.isSome_of_mem place)
  rcases prevotes signer ((mem_append.mp isMember).resolve_right correct) _
    (said.resolve_left correct) with none' | isSeven
  · cases none'
  · cases isSeven
    decide

/-- The certificate has the vote of the faulty member, and member 3 has precommitted beside it.
The lock of the one correct member who gave up brings the block into the next attempt. -/
theorem held_block_is_carried : ∃ network : Network, Network.initial.run (fourSetting [[4]])
        (heldRun ++ [.at' [1] (.tick true true)]) = some network ∧
      ∃ (carried : Option TmLock) (chain : SkipChain),
        heldSkip.verify 40000 [[1], [2], [3], [4]] = .ok carried ∧
        (fourSetting [[4]]).skipChain [heldSkip] = .ok chain ∧
        (∃ lock, carried = some lock ∧ (fourSetting [[4]]).valueId lock.value = plainDigest [7]) ∧
        ∃ lock, chain.carried = some lock ∧
          (fourSetting [[4]]).valueId lock.value = plainDigest [7] := by
  have signs : ∃ network ∈ Network.initial.run (fourSetting [[4]])
        (heldRun ++ [.at' [1] (.tick true true)]),
      (∀ sig ∈ (certOf [7] [[1], [2], [4]]).sigs, network.Made (fourSetting [[4]]) sig) ∧
      (∀ sig ∈ heldSkip.sigs, network.Made (fourSetting [[4]]) sig) ∧
      network.Made (fourSetting [[4]]) ⟨[3], .vote 0 .precommit 40000 0 [7]⟩ ∧
      ∀ member ∈ [[1], [2], [3]], ∀ message ∈ (network member).signed,
        message.prevoted = none ∨ message.prevoted = some [7] := by
    decide
  obtain ⟨network, ran, certSigned, skipSigned, beside, prevotes⟩ := signs
  have finalized : Finalized (fourSetting [[4]]) network (plainBlock [7])
      (certOf [7] [[1], [2], [4]]) [[1], [2], [3], [4]] [[3]] :=
    { verified := by decide
      signed := certSigned
      height := rfl
      named := by decide
      seated := rfl
      precommitted := forall_mem_singleton.mpr ⟨by decide, beside⟩
      many := by decide }
  obtain ⟨inAttempt, after⟩ := replacements_carry_finalized_block (fourSetting [[4]]) _ network ran
    (plainBlock [7]) (certOf [7] [[1], [2], [4]]) [[1], [2], [3], [4]] [[3]] finalized
  have verified : heldSkip.verify 40000 [[1], [2], [3], [4]] =
      .ok (some (lockOf 0 [7] [[1], [2], [3]])) := by decide
  have opens : (fourSetting [[4]]).skipChain [heldSkip] = .ok {
      committee := [[1], [2], [3], [4]]
      miners := [[1], [2], [3], [4], [1], [2], [3], [4]]
      carried := some { lockOf 0 [7] [[1], [2], [3]] with attempt := some 0 } } := by
    decide
  have named : ∀ vote ∈ heldSkip.votes, ∀ lock, vote.locked = some lock →
      ¬ (fourSetting [[4]]).Blank ((fourSetting [[4]]).valueId lock.value) := by
    refine forall_mem_cons.mpr ⟨?_, forall_mem_singleton.mpr nofun⟩
    rintro lock ⟨⟩
    decide
  refine ⟨network, ran, _, _, verified, opens, inAttempt heldSkip _ _ rfl verified skipSigned named,
    after fourSetting_fewFaulty (fourSetting_clean ((Network.initial_ok _).run ran) prevotes)
      [heldSkip] _ opens (by decide) (by decide) (forall_mem_singleton.mpr skipSigned)⟩

/-- The faulty member 4 precommits the block with members 1 and 2 and gives up with
member 3, who has no lock. -/
def looseRun : List NetworkEvent :=
  [.at' [1] (.begin true), .at' [2] (.begin true), .at' [3] (.begin true),
    .at' [1] (.propose (plainBlock [7]) true)] ++
  NetworkEvent.hearProposal [2] [1] 0 [7] ++
  [.hearVote [1] [2] 0 .prevote [7], .hearVote [1] [4] 0 .prevote [7],
    .hearVote [2] [1] 0 .prevote [7], .hearVote [2] [4] 0 .prevote [7],
    .at' [3] (.tick true true)]

def looseSkip : TmSkipCert where
  attempt := 0
  votes := [[3], [4]].map (giveUpOf none)

/-- All members precommit the block, member 4 tells the others it did not, and in the next
round members 1 and 3 prevote nothing. -/
def blankRun : List NetworkEvent :=
  let nothing (address : Address) : NetworkEvent := .at' address (.vote {
    height := 40000, round := 0, kind := .precommit, value := none, voter := [4]
    sig := ⟨[4], .vote 0 .precommit 40000 0 []⟩, attempt := 0 })
  let timeOut (address : Address) (now : Nat) : NetworkEvent :=
    { address := address, order := .inserted, now := now, event := .tick false false }
  heldRun ++
  [.hearVote [1] [2] 0 .precommit [7], nothing [1], .hearVote [3] [1] 0 .precommit [7], nothing [3],
    timeOut [1] 100000000, timeOut [3] 100000000, timeOut [1] 200000000, timeOut [3] 200000000,
    .at' [1] (.tick true true)]

/-- Member 1 reports its lock, member 4 one on the empty text from the round after. -/
def blankSkip : TmSkipCert where
  attempt := 0
  votes := [giveUpOf (some (lockOf 0 [7] [[1], [2], [3]])) [1],
    giveUpOf (some (lockOf 1 [] [[1], [3], [4]])) [4]]

/-- With one faulty member of four, a quorum of votes does not bind the committee's
give-ups: they may carry no lock at all.  When all four vote, they may still carry a lock on
the empty text. -/
theorem give_ups_can_pass_over_block : (∃ network : Network,
      Network.initial.run (fourSetting [[4]]) looseRun = some network ∧
      (fourSetting [[4]]).FewFaulty ∧
      (fourSetting [[4]]).verifyBlockCertificate (plainBlock [7]) (certOf [7] [[1], [2], [4]]) =
        .ok () ∧
      (∀ sig ∈ (certOf [7] [[1], [2], [4]]).sigs, network.Made (fourSetting [[4]]) sig) ∧
      looseSkip.verify 40000 [[1], [2], [3], [4]] = .ok none ∧
      ∀ sig ∈ looseSkip.sigs, network.Made (fourSetting [[4]]) sig) ∧
    ∃ network : Network, Network.initial.run (fourSetting [[4]]) blankRun = some network ∧
      Finalized (fourSetting [[4]]) network (plainBlock [7])
        (certOf [7] [[1], [2], [3], [4]]) [[1], [2], [3], [4]] [] ∧
      blankSkip.verify 40000 [[1], [2], [3], [4]] = .ok (some (lockOf 1 [] [[1], [3], [4]])) ∧
      ∀ sig ∈ blankSkip.sigs, network.Made (fourSetting [[4]]) sig := by
  constructor
  · have signs : ∃ network ∈ Network.initial.run (fourSetting [[4]]) looseRun,
        (∀ sig ∈ (certOf [7] [[1], [2], [4]]).sigs, network.Made (fourSetting [[4]]) sig) ∧
          ∀ sig ∈ looseSkip.sigs, network.Made (fourSetting [[4]]) sig := by
      decide
    obtain ⟨network, ran, certSigned, skipSigned⟩ := signs
    exact ⟨network, ran, fourSetting_fewFaulty, by decide, certSigned, by decide, skipSigned⟩
  · have signs : ∃ network ∈ Network.initial.run (fourSetting [[4]]) blankRun,
        (∀ sig ∈ (certOf [7] [[1], [2], [3], [4]]).sigs, network.Made (fourSetting [[4]]) sig) ∧
          ∀ sig ∈ blankSkip.sigs, network.Made (fourSetting [[4]]) sig := by
      decide +kernel
    obtain ⟨network, ran, certSigned, skipSigned⟩ := signs
    refine ⟨network, ran, ?_, by decide +kernel, skipSigned⟩
    exact {
      verified := by decide
      signed := certSigned
      height := rfl
      named := by decide
      seated := rfl
      precommitted := nofun
      many := by decide }

end EgoChain.Consensus
