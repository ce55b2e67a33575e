import EgoChain.Foundations.Quorum

/-!
# Voting with locks

The safety argument of a two-phase voting protocol with locks, for one family of
vote histories.  A correct member casts one vote per round and phase, precommits
only on a quorum of prevotes, and once it has precommitted a value prevotes a
different one only on a quorum of prevotes for it from the meantime.  Then a
quorum of precommits pins the value of every later quorum of prevotes.
-/

namespace EgoChain.Foundations.LockVoting

variable {Member Value : Type} [DecidableEq Member]

/-- Which value each member prevoted and precommitted in which round. -/
structure Votes (Member Value : Type) where
  prevoted : Member → Nat → Value → Prop
  precommitted : Member → Nat → Value → Prop

/-- A committee with its faulty members and a quorum size that suits them. -/
structure Committee (Member : Type) [DecidableEq Member] where
  members : Finset Member
  faulty : Finset Member
  quorum : Nat
  overlap : members.card + faulty.card < 2 * quorum
  reach : faulty.card < quorum

/-- A quorum of members each of whom is faulty or said so. -/
def Committee.Backed (committee : Committee Member) (said : Member → Prop) : Prop :=
  ∃ voters, voters ⊆ committee.members ∧ committee.quorum ≤ voters.card ∧
    ∀ member ∈ voters, member ∈ committee.faulty ∨ said member

variable {committee : Committee Member} {said other : Member → Prop}

theorem Committee.Backed.mono (backed : committee.Backed said)
    (more : ∀ member, said member → other member) : committee.Backed other := by
  obtain ⟨voters, inside, large, spoke⟩ := backed
  exact ⟨voters, inside, large, fun member mem => (spoke member mem).imp_right (more member)⟩

theorem Committee.Backed.common (first : committee.Backed said) (second : committee.Backed other) :
    ∃ member, member ∈ committee.members ∧ member ∉ committee.faulty ∧ said member ∧ other member := by
  obtain ⟨voters, inside, large, spoke⟩ := first
  obtain ⟨others, othersInside, othersLarge, othersSpoke⟩ := second
  have overlap := committee.overlap
  obtain ⟨member, mem, otherMem, correct⟩ :=
    exists_correct_in_both inside othersInside
      (show committee.members.card + committee.faulty.card < _ by omega)
  exact ⟨member, inside mem, correct, (spoke member mem).resolve_left correct,
    (othersSpoke member otherMem).resolve_left correct⟩

theorem Committee.Backed.correct (backed : committee.Backed said) :
    ∃ member, member ∈ committee.members ∧ member ∉ committee.faulty ∧ said member := by
  obtain ⟨voters, inside, large, spoke⟩ := backed
  have reach := committee.reach
  obtain ⟨member, mem, correct⟩ :=
    Finset.exists_mem_notMem_of_card_lt_card (show committee.faulty.card < voters.card by omega)
  exact ⟨member, inside mem, correct, (spoke member mem).resolve_left correct⟩

variable (committee) (votes : Votes Member Value) (round : Nat) (value : Value)

/-- A quorum of prevotes. -/
def Polka : Prop :=
  committee.Backed fun member => votes.prevoted member round value

/-- A quorum of precommits. -/
def Commit : Prop :=
  committee.Backed fun member => votes.precommitted member round value

/-- What a correct member's history obeys. -/
structure Disciplined (committee : Committee Member) (votes : Votes Member Value)
    (member : Member) : Prop where
  onePrevote : ∀ {round value other}, votes.prevoted member round value →
    votes.prevoted member round other → value = other
  onePrecommit : ∀ {round value other}, votes.precommitted member round value →
    votes.precommitted member round other → value = other
  precommitBacked : ∀ {round value}, votes.precommitted member round value →
    Polka committee votes round value
  prevoteJustified : ∀ {round value later other}, votes.precommitted member round value →
    votes.prevoted member later other → round < later → other ≠ value →
    ∃ proof, round ≤ proof ∧ proof < later ∧ Polka committee votes proof other

variable {committee} {votes}

section Safety

variable (disciplined : ∀ member ∈ committee.members, member ∉ committee.faulty →
  Disciplined committee votes member)

include disciplined

variable {value} {other : Value} {round}

theorem polka_unique (polka : Polka committee votes round value)
    (second : Polka committee votes round other) : value = other := by
  obtain ⟨member, inside, correct, said, saidOther⟩ := polka.common second
  exact (disciplined member inside correct).onePrevote said saidOther

theorem polka_of_commit (commit : Commit committee votes round value) :
    Polka committee votes round value := by
  obtain ⟨member, inside, correct, said⟩ := commit.correct
  exact (disciplined member inside correct).precommitBacked said

variable {later : Nat}

/-- After a quorum of precommits every quorum of prevotes is for the same value. -/
theorem polka_after_commit (commit : Commit committee votes round value) (notBefore : round ≤ later)
    (polka : Polka committee votes later other) : other = value := by
  -- Strong induction on the later round: a member of both quorums that prevoted
  -- another value must have seen a polka for it in between.
  induction later using Nat.strong_induction_on generalizing other with
  | _ later ih =>
    rcases eq_or_lt_of_le notBefore with same | after
    · subst same
      exact polka_unique disciplined polka (polka_of_commit disciplined commit)
    · by_contra different
      obtain ⟨member, inside, correct, precommitted, prevoted⟩ := commit.common polka
      obtain ⟨proof, fromRound, beforeLater, earlier⟩ :=
        (disciplined member inside correct).prevoteJustified precommitted prevoted after different
      exact different (ih proof beforeLater fromRound earlier)

/-- Two quorums of precommits agree, whatever their rounds. -/
theorem commit_unique (commit : Commit committee votes round value)
    (second : Commit committee votes later other) : value = other := by
  rcases le_total round later with before | before
  · exact (polka_after_commit disciplined commit before (polka_of_commit disciplined second)).symm
  · exact polka_after_commit disciplined second before (polka_of_commit disciplined commit)

end Safety

end EgoChain.Foundations.LockVoting
