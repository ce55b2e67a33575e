import EgoChain.Consensus.CertificateFacts
import EgoChain.Foundations.Quorum

/-!
# Who signed two certificates

Two certificates of one committee for two blocks of the same round name the
members that signed for both.  Votes are counted by the member that signed them,
so a certificate counts as many members as it has votes.
-/

namespace EgoChain.Consensus

open EgoChain.Foundations List

variable {cert : TmCert} {block : Block} {committee : List Address}

namespace TmCert

/-- The certificate holds a precommit of the member for the block. -/
def SignedBy (cert : TmCert) (block : Block) (member : Address) : Prop :=
  (member, Signature.mk member (tmVoteMessageAt cert.attempt .precommit block.height cert.round
    (some block.hash))) ∈ cert.votes

instance (cert : TmCert) (block : Block) (member : Address) :
    Decidable (cert.SignedBy block member) := by
  unfold SignedBy
  infer_instance

/-- The members of a committee whose precommits for the block the certificate holds. -/
def signers (cert : TmCert) (block : Block) (committee : List Address) : Finset Address :=
  committee.toFinset.filter (cert.SignedBy block)

theorem signers_subset (cert : TmCert) (block : Block) (committee : List Address) :
    cert.signers block committee ⊆ committee.toFinset :=
  Finset.filter_subset _ _

/-- The votes of an accepted certificate are the votes of its signers, one from each. -/
theorem signers_of_verifyVotes
    (verified : cert.verifyVotes committee (tmVoteMessageAt cert.attempt .precommit block.height
      cert.round (some block.hash)) = .ok ()) :
    (cert.votes.map Prod.fst).Nodup ∧
      (cert.votes.map Prod.fst).toFinset = cert.signers block committee := by
  obtain ⟨-, distinct, each⟩ := verifyVotes_ok_iff.mp verified
  refine ⟨distinct, Finset.ext fun member => ?_⟩
  simp only [mem_toFinset, signers, Finset.mem_filter, SignedBy]
  constructor
  · intro voted
    obtain ⟨entry, mem, rfl⟩ := mem_map.mp voted
    obtain ⟨seated, signed⟩ := each entry mem
    refine ⟨seated, ?_⟩
    rw [← signed]
    exact mem
  · rintro ⟨-, mem⟩
    exact mem_map.mpr ⟨_, mem, rfl⟩

end TmCert

/-- The certificate is accepted for the block, by the committee of its attempt. -/
def Certifies (committee : List Address) (cert : TmCert) (block : Block) : Prop :=
  cert.verify block committee = .ok () ∨
    ∃ view : HeightView, view.committeeForAttempt cert.attempt = some committee ∧
      view.verifyBlockCertificate block cert = .ok ()

theorem Certifies.votes (certifies : Certifies committee cert block) :
    cert.verifyVotes committee (tmVoteMessageAt cert.attempt .precommit block.height cert.round
      (some block.hash)) = .ok () := by
  rcases certifies with first | ⟨view, seated, verified⟩
  · obtain ⟨⟨-, attempt, -⟩, -, votes⟩ := TmCert.verify_ok_iff.mp first
    rw [attempt]
    exact votes
  · obtain ⟨other, seatedToo, votes⟩ := HeightView.votes_of_verifyBlockCertificate verified
    cases seated.symm.trans seatedToo
    exact votes

/-- An accepted certificate counts a quorum of different members of the committee. -/
theorem Certifies.quorum_le_signers (certifies : Certifies committee cert block) :
    quorumOf committee.length ≤ (cert.signers block committee).card := by
  obtain ⟨distinct, signers⟩ := TmCert.signers_of_verifyVotes certifies.votes
  obtain ⟨enough, -, -⟩ := TmCert.verifyVotes_ok_iff.mp certifies.votes
  rw [← signers, toFinset_card_of_nodup distinct, length_map]
  exact enough

theorem faults_lt_two_quorums (n : Nat) : n - quorumOf n < 2 * quorumOf n - n := by
  unfold quorumOf
  omega

/-- Two blocks certified in one round share signers, more than may be faulty, and only different
members of the committee are counted for either. -/
theorem forks_name_double_signers (committee : List Address) (cert second : TmCert)
    (block other : Block) (certified : Certifies committee cert block)
    (certifiedToo : Certifies committee second other) (height : block.height = other.height)
    (attempt : cert.attempt = second.attempt) (round : cert.round = second.round)
    (_fork : block ≠ other) :
    let both := committee.toFinset.filter fun member =>
      (member, Signature.mk member (tmVoteMessageAt cert.attempt .precommit block.height cert.round
        (some block.hash))) ∈ cert.votes ∧
      (member, Signature.mk member (tmVoteMessageAt cert.attempt .precommit block.height cert.round
        (some other.hash))) ∈ second.votes
    2 * quorumOf committee.length - committee.length ≤ both.card ∧
      committee.length - quorumOf committee.length < both.card ∧
      (cert.votes.map Prod.fst).Nodup ∧
      (cert.votes.map Prod.fst).toFinset = cert.signers block committee ∧
      (second.votes.map Prod.fst).Nodup ∧
      (second.votes.map Prod.fst).toFinset = second.signers other committee := by
  intro both
  have common : cert.signers block committee ∩ second.signers other committee ⊆ both := by
    intro member inBoth
    simp only [TmCert.signers, Finset.mem_inter, Finset.mem_filter, TmCert.SignedBy] at inBoth
    obtain ⟨⟨seated, signed⟩, -, signedToo⟩ := inBoth
    rw [← height, ← attempt, ← round] at signedToo
    exact Finset.mem_filter.mpr ⟨seated, signed, signedToo⟩
  have count := card_add_card_le_inter (cert.signers_subset block committee)
    (second.signers_subset other committee)
  have few := toFinset_card_le committee
  have counted := Finset.card_le_card common
  have many := certified.quorum_le_signers
  have manyToo := certifiedToo.quorum_le_signers
  have more := faults_lt_two_quorums committee.length
  obtain ⟨distinct, signers⟩ := TmCert.signers_of_verifyVotes certified.votes
  obtain ⟨distinctToo, signersToo⟩ := TmCert.signers_of_verifyVotes certifiedToo.votes
  exact ⟨by omega, by omega, distinct, signers, distinctToo, signersToo⟩

variable (hash : Text) (voters : List Address)

/-- A block of the first of four members. -/
def forkBlock : Block := ⟨7, hash, [], [1], []⟩

/-- Its certificate with the precommits of some members, for any hash. -/
def forkCert : TmCert where
  v := tmCertVersion
  round := 0
  votes := voters.map fun voter => (voter, ⟨voter, tmVoteMessageAt 0 .precommit 7 0 (some hash)⟩)

/-- Members 2 and 3 sign for both blocks: more than the one that may be faulty. -/
theorem two_members_sign_both : forkBlock [2] ≠ forkBlock [3] ∧
    1 < ([[1], [2], [3], [4]].toFinset.filter fun member : Address =>
      (member, Signature.mk member (tmVoteMessageAt 0 .precommit 7 0 (some [2]))) ∈
        (forkCert [2] [[1], [2], [3]]).votes ∧
      (member, Signature.mk member (tmVoteMessageAt 0 .precommit 7 0 (some [3]))) ∈
        (forkCert [3] [[2], [3], [4]]).votes).card := by
  have apart : forkBlock [2] ≠ forkBlock [3] := by simp [forkBlock]
  have first : Certifies [[1], [2], [3], [4]] (forkCert [2] [[1], [2], [3]]) (forkBlock [2]) :=
    Or.inl (by decide)
  have second : Certifies [[1], [2], [3], [4]] (forkCert [3] [[2], [3], [4]]) (forkBlock [3]) :=
    Or.inl (by decide)
  have counted := (forks_name_double_signers [[1], [2], [3], [4]] (forkCert [2] [[1], [2], [3]])
    (forkCert [3] [[2], [3], [4]]) (forkBlock [2]) (forkBlock [3]) first second rfl rfl rfl apart).2.1
  exact ⟨apart, counted⟩

end EgoChain.Consensus
