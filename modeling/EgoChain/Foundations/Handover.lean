import EgoChain.Foundations.LockVoting
import Mathlib.Data.Prod.Lex

/-!
# A relay of committees

Committees take over from one another, each with votes of its own.  When a later
committee backs a value only if an earlier one already backed it, at or after
the place of a commit, then no committee of the relay commits another value.
-/

namespace EgoChain.Foundations.LockVoting

variable {Member Value : Type} [DecidableEq Member]

/-- One committee for every attempt, and the votes cast in it. -/
structure Relay (Member Value : Type) [DecidableEq Member] where
  committee : Nat → Committee Member
  votes : Nat → Votes Member Value

namespace Relay

variable (relay : Relay Member Value)

def Polka (attempt round : Nat) (value : Value) : Prop :=
  LockVoting.Polka (relay.committee attempt) (relay.votes attempt) round value

def Commit (attempt round : Nat) (value : Value) : Prop :=
  LockVoting.Commit (relay.committee attempt) (relay.votes attempt) round value

/-- The correct members of every committee obey the rules of voting with locks. -/
def Disciplined : Prop :=
  ∀ attempt, ∀ member ∈ (relay.committee attempt).members, member ∉ (relay.committee attempt).faulty →
      LockVoting.Disciplined (relay.committee attempt) (relay.votes attempt) member

/-- A committee after the given attempt backs only what an earlier committee backed, at
the given attempt and round or after them. -/
def Inherits (attempt round : Nat) : Prop :=
  ∀ {later laterRound value}, attempt < later → relay.Polka later laterRound value →
    ∃ source sourceRound, source < later ∧ toLex (attempt, round) ≤ toLex (source, sourceRound) ∧
      relay.Polka source sourceRound value

variable {relay} {attempt round later laterRound : Nat} {value other : Value}

/-- Once a value is committed, every committee from there on backs that value only. -/
theorem polka_pinned (disciplined : relay.Disciplined) (commit : relay.Commit attempt round value)
    (inherits : relay.Inherits attempt round)
    (notBefore : toLex (attempt, round) ≤ toLex (later, laterRound))
    (polka : relay.Polka later laterRound other) : other = value := by
  -- Strong induction on the attempt: the backing is handed down until it reaches the
  -- committee of the commit itself.
  induction later using Nat.strong_induction_on generalizing laterRound with
  | _ later ih =>
    rcases Prod.Lex.toLex_le_toLex.mp notBefore with after | ⟨same, laterOn⟩
    · obtain ⟨source, sourceRound, before, stillNotBefore, earlier⟩ := inherits after polka
      exact ih source before stillNotBefore earlier
    · subst same
      exact polka_after_commit (disciplined attempt) commit laterOn polka

/-- No two committees of a relay commit different values. -/
theorem commit_unique (disciplined : relay.Disciplined) (commit : relay.Commit attempt round value)
    (inherits : relay.Inherits attempt round) (second : relay.Commit later laterRound other)
    (secondInherits : relay.Inherits later laterRound) : value = other := by
  have polka := polka_of_commit (disciplined attempt) commit
  have laterPolka := polka_of_commit (disciplined later) second
  rcases le_total (toLex (attempt, round)) _ with before | before
  · exact (polka_pinned disciplined commit inherits before laterPolka).symm
  · exact polka_pinned disciplined second secondInherits before polka

end Relay

end EgoChain.Foundations.LockVoting
