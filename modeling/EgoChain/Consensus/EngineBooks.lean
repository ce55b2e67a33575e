import EgoChain.Consensus.Tendermint
import Mathlib.Data.List.Dedup
import Mathlib.Data.List.ReduceOption

/-!
# The vote books of the engine

What a recorded vote adds to a book, and what the counts read from it: a value
with a quorum in the tally has that many distinct voters on record.
-/

namespace EgoChain.Consensus

open EgoChain.Foundations List

variable {value : Option ValueId} {book : Book} {round voter : Nat}

/-- A ballot takes a new value while it has room. -/
theorem Ballot.mem_push {ballot : Ballot} {old : Option ValueId} : old ∈ (ballot.push value).values ↔
      old ∈ ballot.values ∨ (old = value ∧ ballot.values.length < valuesPerVoter) := by
  unfold push
  split
  case isTrue =>
    split
    case isTrue room => simp [room]
    case isFalse full => simp [full]
  case isFalse there =>
    constructor
    · exact Or.inl
    · rintro (mem | ⟨rfl, -⟩)
      · exact mem
      · exact not_not.mp there

/-- The ballot of a voter for a round, empty if there is none on record. -/
def ballotIn (book : Book) (round voter : Nat) : Ballot :=
  (((book.lookup round).getD ∅).lookup voter).getD Ballot.empty

theorem ballotIn_record (book : Book) (round voter at' who : Nat) (value : Option ValueId) :
    ballotIn (record book round voter value) at' who =
      if at' = round ∧ who = voter then (ballotIn book round voter).push value
      else ballotIn book at' who := by
  unfold ballotIn record
  by_cases sameRound : at' = round
  · subst sameRound
    by_cases sameVoter : who = voter
    · subst sameVoter
      simp
    · simp [sameVoter]
  · simp [sameRound]

theorem mem_votersIn : voter ∈ votersIn book round value ↔
      ∃ voters ballot, book.lookup round = some voters ∧ voters.lookup voter = some ballot ∧
        value ∈ ballot.values := by
  unfold votersIn
  cases found : book.lookup round with
  | none => simp
  | some voters =>
    constructor
    · intro mem
      obtain ⟨⟨key, ballot⟩, inFilter, rfl⟩ := mem_map.mp mem
      obtain ⟨inEntries, holds⟩ := mem_filter.mp inFilter
      exact ⟨voters, ballot, rfl, (KeyedMap.mem_entries_iff voters _ _).mp inEntries,
        of_decide_eq_true holds⟩
    · rintro ⟨others, ballot, same, there, holds⟩
      cases same
      refine mem_map.mpr ⟨⟨voter, ballot⟩, mem_filter.mpr ⟨?_, decide_eq_true holds⟩, rfl⟩
      exact (KeyedMap.mem_entries_iff voters _ _).mpr there

/-- The voters of a value are those whose ballot holds it. -/
theorem mem_votersIn_iff :
    voter ∈ votersIn book round value ↔ value ∈ (ballotIn book round voter).values := by
  rw [mem_votersIn]
  unfold ballotIn
  cases book.lookup round with
  | none => simp [Ballot.empty]
  | some voters =>
    cases found : voters.lookup voter with
    | none => simp [found, Ballot.empty]
    | some ballot => simp [found]

theorem votersIn_nodup (book : Book) (round : Nat) (value : Option ValueId) :
    (votersIn book round value).Nodup := by
  unfold votersIn
  cases book.lookup round with
  | none => exact nodup_nil
  | some voters => exact KeyedMap.filter_keys_nodup voters _

variable {at' who : Nat} {other : Option ValueId}

/-- A recorded vote is the only one that is new in the book, if its voter's ballot has room. -/
theorem mem_votersIn_record_iff : who ∈ votersIn (record book round voter value) at' other ↔
      who ∈ votersIn book at' other ∨ (at' = round ∧ who = voter ∧ other = value ∧
        (ballotIn book round voter).values.length < valuesPerVoter) := by
  rw [mem_votersIn_iff, mem_votersIn_iff, ballotIn_record]
  split
  case isTrue same =>
    obtain ⟨rfl, rfl⟩ := same
    rw [Ballot.mem_push]
    simp
  case isFalse differs =>
    constructor
    · exact Or.inl
    · rintro (mem | ⟨rfl, rfl, -⟩)
      · exact mem
      · exact absurd ⟨rfl, rfl⟩ differs

theorem mem_votersIn_record (mem : who ∈ votersIn (record book round voter value) at' other) :
    (at' = round ∧ who = voter ∧ other = value) ∨ who ∈ votersIn book at' other := by
  rcases mem_votersIn_record_iff.mp mem with old | ⟨rfl, rfl, rfl, -⟩
  · exact Or.inr old
  · exact Or.inl ⟨rfl, rfl, rfl⟩

namespace Tendermint

/-- The tally of a value counts the ballots that hold it, once each. -/
theorem tally_eq (voters : KeyedMap Nat Ballot) (value : ValueId) : tally voters value =
      (voters.entries.filter fun entry => some value ∈ entry.2.values).length := by
  unfold tally
  induction voters.entries with
  | nil => rfl
  | cons entry rest ih =>
    rw [map_cons, sum_cons, ih]
    by_cases holds : some value ∈ entry.2.values
    · rw [count_eq_one_of_mem entry.2.nodup holds]
      simp [holds, add_comm]
    · rw [count_eq_zero_of_not_mem holds]
      simp [holds]

variable {engine : Tendermint} {order : IterOrder} {kind : VoteKind} {value : ValueId}

theorem quorum_le_count (found : engine.valueWithQuorum order kind round = some value) :
    quorum engine.n ≤ engine.count kind round (some value) := by
  unfold valueWithQuorum at found
  unfold count votersFor votersIn
  cases there : (engine.book kind).lookup round with
  | none => simp [there] at found
  | some voters =>
    rw [there] at found
    have enough : quorum engine.n ≤ tally voters value := by
      simpa using List.find?_some found
    rw [tally_eq] at enough
    simpa using enough

/-- A decision is a value with a quorum of precommits that may be accepted. -/
theorem findDecision_spec (found : engine.findDecision order = some (round, value)) :
    engine.valueWithQuorum order .precommit round = some value ∧ engine.acceptable value = true := by
  obtain ⟨at', -, chosen⟩ := exists_of_findSome?_eq_some found
  split at chosen
  case h_2 => cases chosen
  case h_1 other there =>
    obtain ⟨acceptable, chosen⟩ := Option.ite_none_right_eq_some.mp chosen
    cases chosen
    exact ⟨there, acceptable⟩

theorem quorum_pos (n : Nat) : 0 < quorum n := Nat.succ_pos _

variable (order)

/-- In whatever order the tally is read, the only value with a quorum is found. -/
theorem valueWithQuorum_eq_some (enough : quorum engine.n ≤ engine.count kind round (some value))
    (alone : ∀ other, quorum engine.n ≤ engine.count kind round (some other) → other = value) :
    engine.valueWithQuorum order kind round = some value := by
  have found : ∃ other, engine.valueWithQuorum order kind round = some other := by
    unfold valueWithQuorum
    unfold count votersFor votersIn at enough
    cases there : (engine.book kind).lookup round with
    | none =>
      have positive := quorum_pos engine.n
      simp [there] at enough
      omega
    | some voters =>
      rw [there] at enough
      rw [length_map, ← tally_eq] at enough
      rw [← Option.isSome_iff_exists, List.find?_isSome]
      refine ⟨value, ?_, by simpa using enough⟩
      rw [(order.perm engine kind round _).mem_iff, tallied, mem_dedup, mem_flatMap]
      rw [tally_eq] at enough
      obtain ⟨entry, mem⟩ := exists_mem_of_length_pos ((quorum_pos engine.n).trans_le enough)
      obtain ⟨listed, holds⟩ := mem_filter.mp mem
      exact ⟨entry, listed, reduceOption_mem_iff.mpr (of_decide_eq_true holds)⟩
  obtain ⟨other, isOther⟩ := found
  rw [isOther, alone other (quorum_le_count isOther)]

/-- A value that may be accepted, and is the only one with a quorum of precommits in its round,
makes for a decision. -/
theorem findDecision_ne_none (acceptable : engine.acceptable value = true)
    (enough : quorum engine.n ≤ engine.count .precommit round (some value))
    (alone : ∀ other, quorum engine.n ≤ engine.count .precommit round (some other) →
      other = value) : engine.findDecision order ≠ none := by
  have chosen := valueWithQuorum_eq_some order enough alone
  have inKeys : round ∈ engine.precommits.keys := by
    rw [← AList.mem_keys, ← AList.lookup_isSome]
    unfold count votersFor votersIn at enough
    cases there : (engine.book .precommit).lookup round with
    | none =>
      have positive := quorum_pos engine.n
      simp [there] at enough
      omega
    | some voters => exact Option.isSome_of_eq_some there
  unfold findDecision
  rw [← Option.isSome_iff_ne_none, List.findSome?_isSome_iff]
  refine ⟨round, (mem_insertionSort _).mpr inKeys, ?_⟩
  rw [chosen]
  simp [acceptable]

end Tendermint

end EgoChain.Consensus
