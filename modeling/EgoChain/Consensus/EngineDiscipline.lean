import EgoChain.Consensus.EngineMoves
import EgoChain.Foundations.LockVoting

/-!
# The discipline of one engine

A member's votes obey the rules of voting with locks, as far as the member can
tell from the votes it was told about.  The rules speak about the part of its
state that survives a restart, so they hold of a saved state and of the engine
restored from it alike.
-/

namespace EgoChain.Consensus

open EgoChain.Foundations.LockVoting (Committee Votes Polka Commit)

/-- The committee of `n` members with the engine's quorum. -/
def committeeOf (n : Nat) (faulty : Finset Nat) (few : faulty.card ≤ n - quorum n) : Committee Nat where
  members := Finset.range n
  faulty := faulty
  quorum := quorum n
  overlap := by
    rw [Finset.card_range]
    unfold quorum at *
    omega
  reach := by
    unfold quorum at *
    omega

/-- The part of a member's state that survives a restart. -/
structure Memory where
  round : Nat
  step : Step
  locked : Option (Nat × ValueId)
  voted : VoteKind → Nat → Option ValueId → Prop

/-- At most one vote of each kind in a round. -/
abbrev Memory.OneVote (memory : Memory) : Prop :=
  ∀ {kind round value other}, memory.voted kind round value → memory.voted kind round other →
    value = other

def Tendermint.memory (engine : Tendermint) : Memory where
  round := engine.round
  step := engine.step
  locked := engine.locked
  voted kind round value := engine.sent.lookup (round, kind) = some value

def Saved.memory (saved : Saved) : Memory where
  round := saved.round
  step := saved.step
  locked := saved.locked
  voted kind round value := (round, kind, value) ∈ saved.sent

/-- The votes a member has heard of, its own included. -/
def known (heard : Heard) (me : Option Nat) (memory : Memory) : Heard :=
  fun kind round voter value =>
    heard kind round voter value ∨ (me = some voter ∧ memory.voted kind round value)

/-- The votes for values that may count.  A value can be set aside as junk: nothing is
then said about the votes for it. -/
def votesOf (junk : ValueId → Prop) (heard : Heard) : Votes Nat ValueId where
  prevoted voter round value := ¬ junk value ∧ heard .prevote round voter (some value)
  precommitted voter round value := ¬ junk value ∧ heard .precommit round voter (some value)

variable {junk : ValueId → Prop} {heard more : Heard} {round : Nat} {value : ValueId}

section

variable (grows : ∀ kind round voter value, heard kind round voter value → more kind round voter value)

include grows

variable {committee : Committee Nat}

theorem polka_mono (polka : Polka committee (votesOf junk heard) round value) :
    Polka committee (votesOf junk more) round value :=
  Committee.Backed.mono polka fun voter => And.imp_right (grows .prevote round voter (some value))

theorem commit_mono (commit : Commit committee (votesOf junk heard) round value) :
    Commit committee (votesOf junk more) round value :=
  Committee.Backed.mono commit fun voter =>
    And.imp_right (grows .precommit round voter (some value))

theorem known_mono {me : Option Nat} {memory later : Memory}
    (keeps : ∀ kind round value, memory.voted kind round value → later.voted kind round value)
    (kind : VoteKind) (round voter : Nat) (value : Option ValueId)
    (knows : known heard me memory kind round voter value) :
    known more me later kind round voter value := by
  rcases knows with told | ⟨mine, voted⟩
  · exact Or.inl (grows kind round voter value told)
  · exact Or.inr ⟨mine, keeps kind round value voted⟩

end

namespace Memory

/-- The rules a member's votes obey. -/
structure Ok (committee : Committee Nat) (junk : ValueId → Prop) (heard : Heard)
    (me : Option Nat) (memory : Memory) : Prop where
  bounded : memory.round ≤ maxU32
  oneVote : ∀ {kind round value other}, memory.voted kind round value →
    memory.voted kind round other → value = other
  voteRound : ∀ {kind round value}, memory.voted kind round value → round ≤ memory.round
  stepVoted : memory.step ≠ .propose → ∃ value, memory.voted .prevote memory.round value
  lockBacked : ∀ {round value}, memory.locked = some (round, value) →
    round ≤ memory.round ∧ (∃ prevote, memory.voted .prevote round prevote) ∧
      (¬ junk value → Polka committee (votesOf junk (known heard me memory)) round value)
  precommitLocked : ∀ {round value}, memory.voted .precommit round (some value) →
    (¬ junk value → Polka committee (votesOf junk (known heard me memory)) round value) ∧
      ∃ lock, memory.locked = some lock ∧ round ≤ lock.1
  justified : ∀ {round value later other}, memory.voted .precommit round (some value) →
    memory.voted .prevote later (some other) → round < later → ¬ junk other → other ≠ value →
    ∃ proof, round ≤ proof ∧ proof < later ∧
      Polka committee (votesOf junk (known heard me memory)) proof other

variable {committee : Committee Nat} {me : Option Nat} {memory : Memory}

section

variable (ok : memory.Ok committee junk heard me)

include ok

/-- Hearing of more votes breaks no rule. -/
theorem Ok.hear (grows : ∀ kind round voter value, heard kind round voter value →
      more kind round voter value) : memory.Ok committee junk more me := by
  have knows : ∀ kind round voter value, known heard me memory kind round voter value →
      known more me memory kind round voter value := known_mono grows (fun _ _ _ => id)
  exact { ok with
    lockBacked := fun lock =>
      let ⟨before, voted, polka⟩ := ok.lockBacked lock
      ⟨before, voted, fun counts => polka_mono knows (polka counts)⟩
    precommitLocked := fun voted =>
      let ⟨polka, lock⟩ := ok.precommitLocked voted
      ⟨fun counts => polka_mono knows (polka counts), lock⟩
    justified := fun voted prevoted after counts different =>
      let ⟨proof, least, below, polka⟩ := ok.justified voted prevoted after counts different
      ⟨proof, least, below, polka_mono knows polka⟩ }

theorem Ok.enter (ahead : memory.round ≤ round) (u32 : round ≤ maxU32) :
    { memory with round := round, step := .propose }.Ok committee junk heard me :=
  { ok with
    bounded := u32
    voteRound := fun voted => (ok.voteRound voted).trans ahead
    stepVoted := fun moved => absurd rfl moved
    lockBacked := fun lock =>
      let ⟨before, rest⟩ := ok.lockBacked lock
      ⟨before.trans ahead, rest⟩ }

theorem Ok.moveStep (prevoted : ∃ value, memory.voted .prevote memory.round value) (next : Step) :
    { memory with step := next }.Ok committee junk heard me :=
  { ok with stepVoted := fun _ => prevoted }

/-- Locking on a polka of the current round. -/
theorem Ok.lock (moved : memory.step ≠ .propose) (polka : ¬ junk value →
      Polka committee (votesOf junk (known heard me memory)) memory.round value) :
    { memory with locked := some (memory.round, value) }.Ok committee junk heard me :=
  { ok with
    lockBacked := by
      intro round other same
      obtain ⟨rfl, rfl⟩ := same
      exact ⟨le_rfl, ok.stepVoted moved, polka⟩
    precommitLocked := fun voted => ⟨(ok.precommitLocked voted).1, _, rfl, ok.voteRound voted⟩ }

end

/-- The memory after a vote in the current round. -/
def cast (memory : Memory) (kind : VoteKind) (value : Option ValueId) : Memory :=
  { memory with
    voted := fun k round v =>
      memory.voted k round v ∨ (k = kind ∧ round = memory.round ∧ v = value) }

variable {kind : VoteKind} {value : Option ValueId}

theorem known_cast (k : VoteKind) (round voter : Nat) (v : Option ValueId)
    (knows : known heard me memory k round voter v) :
    known heard me (memory.cast kind value) k round voter v :=
  known_mono (fun _ _ _ _ => id) (fun _ _ _ => Or.inl) k round voter v knows

/-- A vote of the current round that its kind's rule allows. -/
theorem Ok.cast (ok : memory.Ok committee junk heard me)
    (fresh : ∀ other, ¬ memory.voted kind memory.round other)
    (prevoteRule : kind = .prevote → ∀ v, value = some v → ∀ lock, memory.locked = some lock →
      lock.2 = v ∨ ∃ proof, lock.1 ≤ proof ∧ proof < memory.round ∧
        (¬ junk v → Polka committee (votesOf junk (known heard me memory)) proof v))
    (precommitRule : kind = .precommit → ∀ v, value = some v → memory.locked = some (memory.round, v)) :
    (memory.cast kind value).Ok committee junk heard me where
  bounded := ok.bounded
  oneVote := by
    rintro k round v w (old | ⟨rfl, rfl, rfl⟩) (older | ⟨same, sameRound, rfl⟩)
    · exact ok.oneVote old older
    · exact absurd (same ▸ sameRound ▸ old) (fresh _)
    · exact absurd older (fresh _)
    · rfl
  voteRound := by
    rintro k round v (old | ⟨-, rfl, -⟩)
    · exact ok.voteRound old
    · exact le_rfl
  stepVoted moved :=
    let ⟨v, voted⟩ := ok.stepVoted moved
    ⟨v, Or.inl voted⟩
  lockBacked lock :=
    let ⟨before, ⟨v, voted⟩, polka⟩ := ok.lockBacked lock
    ⟨before, ⟨v, Or.inl voted⟩, fun counts => polka_mono known_cast (polka counts)⟩
  precommitLocked := by
    rintro round v (old | ⟨rfl, rfl, same⟩)
    · obtain ⟨polka, lock⟩ := ok.precommitLocked old
      exact ⟨fun counts => polka_mono known_cast (polka counts), lock⟩
    · have locked := precommitRule rfl v same.symm
      obtain ⟨-, -, polka⟩ := ok.lockBacked locked
      exact ⟨fun counts => polka_mono known_cast (polka counts), _, locked, le_rfl⟩
  justified := by
    rintro round v later other (precommitted | ⟨rfl, rfl, -⟩) prevoted after counts different
    · rcases prevoted with old | ⟨rfl, rfl, same⟩
      · obtain ⟨proof, least, below, polka⟩ := ok.justified precommitted old after counts different
        exact ⟨proof, least, below, polka_mono known_cast polka⟩
      · -- A new prevote: the lock of the earlier precommit is its witness, or the
        -- lock is no newer than the polka the proposal came with.
        obtain ⟨-, ⟨lockRound, lockValue⟩, locked, least⟩ := ok.precommitLocked precommitted
        obtain ⟨before, ⟨prevote, voted⟩, polka⟩ := ok.lockBacked locked
        rcases prevoteRule rfl other same.symm _ locked with sameValue | ⟨proof, newer, below, proved⟩
        · subst sameValue
          have earlier : lockRound ≠ memory.round := by
            rintro rfl
            exact fresh prevote voted
          exact ⟨lockRound, least, by omega, polka_mono known_cast (polka counts)⟩
        · exact ⟨proof, least.trans newer, below, polka_mono known_cast (proved counts)⟩
    · rcases prevoted with old | ⟨other, -, -⟩
      · have := ok.voteRound old
        omega
      · cases other

end Memory

end EgoChain.Consensus
