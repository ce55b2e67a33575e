import EgoChain.Consensus.Messages

/-!
# The bytes that are signed

Votes, proposals and give-ups of all attempts are signed under one key, so the
bytes of one must not be the bytes of another.  Each format starts with its own
tag, every number after it has a fixed width, and the text comes last.

A vote that names no value is written with an empty text in the place of the
value.  Its bytes are those of a vote for a value whose text is empty, and that
is the only pair of inputs the bytes do not tell apart.
-/

namespace EgoChain.Consensus

open EgoChain.Foundations

inductive SigningFormat where
  | voteV1
  | voteV2
  | proposalV1
  | proposalV2
  | skipV1
  | skipV2
  deriving DecidableEq

def SigningFormat.tag : SigningFormat → List UInt8
  | .voteV1 => utf8 "ego/tendermint/vote/v1:"
  | .voteV2 => utf8 "ego/tendermint/vote/v2:"
  | .proposalV1 => utf8 "ego/tendermint/proposal/v1:"
  | .proposalV2 => utf8 "ego/tendermint/proposal/v2:"
  | .skipV1 => utf8 "ego/tendermint/skip/v1:"
  | .skipV2 => utf8 "ego/tendermint/skip/v2:"

theorem SigningFormat.prefixFree_tag : PrefixFree SigningFormat.tag := by
  intro first second
  cases first <;> cases second <;> decide

namespace SigningBytes

def tmVoteMessage (kind : UInt8) (height : UInt64) (round : UInt32) (value : Option Text) :
    List UInt8 :=
  SigningFormat.voteV1.tag ++ kind :: (u64Bytes height ++ (u32Bytes round ++ value.getD []))

variable (height : UInt64) (round attempt : UInt32) (polRound : Option UInt32)

def tmVoteMessageAt (kind : UInt8) (height : UInt64) (round : UInt32) (value : Option Text) :
    List UInt8 :=
  if attempt = 0 then tmVoteMessage kind height round value
  else
    SigningFormat.voteV2.tag ++
      (u32Bytes attempt ++ kind :: (u64Bytes height ++ (u32Bytes round ++ value.getD [])))

/-- The proof round as it is written, with the largest number for none. -/
def polCode : UInt64 :=
  match polRound with
  | none => 18446744073709551615
  | some round => round.toUInt64

def tmProposalMessage (value : Text) : List UInt8 :=
  SigningFormat.proposalV1.tag ++
    (u64Bytes height ++ (u32Bytes round ++ (u64Bytes (polCode polRound) ++ value)))

def tmProposalMessageAt (height : UInt64) (round : UInt32) (polRound : Option UInt32)
    (value : Text) : List UInt8 :=
  if attempt = 0 then tmProposalMessage height round polRound value
  else
    SigningFormat.proposalV2.tag ++ (u32Bytes attempt ++
        (u64Bytes height ++ (u32Bytes round ++ (u64Bytes (polCode polRound) ++ value))))

def tmSkipMessage (locked : Option (UInt32 × Text)) : List UInt8 :=
  SigningFormat.skipV1.tag ++ (u64Bytes height ++ (u32Bytes attempt ++ match locked with
    | some (round, value) => 1 :: (u32Bytes round ++ value)
    | none => [0]))

def tmSkipMessageV2 (locked : Option (UInt32 × UInt32 × Text)) : List UInt8 :=
  SigningFormat.skipV2.tag ++ (u64Bytes height ++ (u32Bytes attempt ++ match locked with
    | some (lockAttempt, round, value) => 1 :: (u32Bytes lockAttempt ++ (u32Bytes round ++ value))
    | none => [0]))

end SigningBytes

/-- What a member may be asked to sign. -/
inductive SigningInput where
  | vote (attempt : UInt32) (kind : UInt8) (height : UInt64) (round : UInt32)
      (value : Option Text)
  | proposal (attempt : UInt32) (height : UInt64) (round : UInt32) (polRound : Option UInt32)
      (value : Text)
  | skip (height : UInt64) (attempt : UInt32) (locked : Option (UInt32 × Text))
  | skipV2 (height : UInt64) (attempt : UInt32) (locked : Option (UInt32 × UInt32 × Text))
  deriving DecidableEq

namespace SigningInput

open SigningBytes

def bytes : SigningInput → List UInt8
  | .vote attempt kind height round value =>
    SigningBytes.tmVoteMessageAt attempt kind height round value
  | .proposal attempt height round polRound value =>
    SigningBytes.tmProposalMessageAt attempt height round polRound value
  | .skip height attempt locked => SigningBytes.tmSkipMessage height attempt locked
  | .skipV2 height attempt locked => SigningBytes.tmSkipMessageV2 height attempt locked

def format : SigningInput → SigningFormat
  | .vote attempt _ _ _ _ => if attempt = 0 then .voteV1 else .voteV2
  | .proposal attempt _ _ _ _ => if attempt = 0 then .proposalV1 else .proposalV2
  | .skip _ _ _ => .skipV1
  | .skipV2 _ _ _ => .skipV2

/-- What follows the tag. -/
def fields : SigningInput → List UInt8
  | .vote attempt kind height round value =>
    let rest := kind :: (u64Bytes height ++ (u32Bytes round ++ value.getD []))
    if attempt = 0 then rest else u32Bytes attempt ++ rest
  | .proposal attempt height round polRound value =>
    let rest := u64Bytes height ++ (u32Bytes round ++ (u64Bytes (polCode polRound) ++ value))
    if attempt = 0 then rest else u32Bytes attempt ++ rest
  | .skip height attempt locked =>
    u64Bytes height ++ (u32Bytes attempt ++ match locked with
      | some (round, value) => 1 :: (u32Bytes round ++ value)
      | none => [0])
  | .skipV2 height attempt locked =>
    u64Bytes height ++ (u32Bytes attempt ++ match locked with
      | some (lockAttempt, round, value) =>
        1 :: (u32Bytes lockAttempt ++ (u32Bytes round ++ value))
      | none => [0])

theorem bytes_eq (input : SigningInput) : input.bytes = input.format.tag ++ input.fields := by
  cases input with
  | vote attempt kind height round value =>
    by_cases first : attempt = 0 <;>
      simp [bytes, format, fields, SigningBytes.tmVoteMessageAt, tmVoteMessage, first]
  | proposal attempt height round polRound value =>
    by_cases first : attempt = 0 <;>
      simp [bytes, format, fields, SigningBytes.tmProposalMessageAt, tmProposalMessage, first]
  | skip height attempt locked | skipV2 height attempt locked => rfl

variable {first second : SigningInput} {attempt attempt' : UInt32} {height height' : UInt64}

theorem bytes_eq_iff :
    first.bytes = second.bytes ↔ first.format = second.format ∧ first.fields = second.fields := by
  rw [bytes_eq, bytes_eq, SigningFormat.prefixFree_tag.append_inj]

/-- The input with a missing value read as the empty text. -/
def readBack : SigningInput → SigningInput
  | .vote attempt kind height round value => .vote attempt kind height round (some (value.getD []))
  | other => other

variable {round round' : UInt32}

theorem vote_bytes_inj {kind kind' : UInt8} {value value' : Option Text}
    (same : (vote attempt kind height round value).bytes =
      (vote attempt' kind' height' round' value').bytes) :
    attempt = attempt' ∧ kind = kind' ∧ height = height' ∧ round = round' ∧
      value.getD [] = value'.getD [] := by
  obtain ⟨sameFormat, sameFields⟩ := bytes_eq_iff.mp same
  by_cases first : attempt = 0 <;> by_cases second : attempt' = 0
  any_goals simp [format, first, second] at sameFormat
  all_goals simpa [fields, first, second] using sameFields

theorem polCode_inj {first second : Option UInt32} (same : polCode first = polCode second) :
    first = second := by
  have small (round : UInt32) : round.toUInt64 ≠ 18446744073709551615 := by
    intro large
    have value : round.toNat = 18446744073709551615 := congrArg UInt64.toNat large
    have bound := round.toNat_lt
    omega
  cases first with
  | none =>
    cases second with
    | none => rfl
    | some round => exact absurd same.symm (small round)
  | some round =>
    cases second with
    | none => exact absurd same (small round)
    | some other =>
      have values := congrArg UInt64.toNat same
      rw [UInt32.toNat_inj.mp values]

theorem proposal_bytes_inj {polRound polRound' : Option UInt32} {value value' : Text}
    (same : (proposal attempt height round polRound value).bytes =
      (proposal attempt' height' round' polRound' value').bytes) :
    attempt = attempt' ∧ height = height' ∧ round = round' ∧ polRound = polRound' ∧ value = value' := by
  obtain ⟨sameFormat, sameFields⟩ := bytes_eq_iff.mp same
  have fromFields : attempt = attempt' ∧ height = height' ∧ round = round' ∧
      polCode polRound = polCode polRound' ∧ value = value' := by
    by_cases first : attempt = 0 <;> by_cases second : attempt' = 0
    any_goals simp [format, first, second] at sameFormat
    all_goals simpa [fields, first, second] using sameFields
  obtain ⟨attempts, heights, rounds, codes, values⟩ := fromFields
  exact ⟨attempts, heights, rounds, polCode_inj codes, values⟩

theorem skip_bytes_inj {locked locked' : Option (UInt32 × Text)}
    (same : (skip height attempt locked).bytes = (skip height' attempt' locked').bytes) :
    height = height' ∧ attempt = attempt' ∧ locked = locked' := by
  have sameFields := (bytes_eq_iff.mp same).2
  simp only [fields, u64Bytes_append_inj, u32Bytes_append_inj] at sameFields
  rcases locked with _ | ⟨round, value⟩ <;> rcases locked' with _ | ⟨round', value'⟩ <;>
    simp_all

theorem skipV2_bytes_inj {locked locked' : Option (UInt32 × UInt32 × Text)}
    (same : (skipV2 height attempt locked).bytes = (skipV2 height' attempt' locked').bytes) :
    height = height' ∧ attempt = attempt' ∧ locked = locked' := by
  have sameFields := (bytes_eq_iff.mp same).2
  simp only [fields, u64Bytes_append_inj, u32Bytes_append_inj] at sameFields
  rcases locked with _ | ⟨lockAttempt, round, value⟩ <;>
    rcases locked' with _ | ⟨lockAttempt', round', value'⟩ <;> simp_all

/-- The bytes of an input tell everything about it but whether an empty value was there. -/
theorem readBack_eq (same : first.bytes = second.bytes) : first.readBack = second.readBack := by
  have sameFormat := (bytes_eq_iff.mp same).1
  cases first <;> cases second
  case vote.vote =>
    obtain ⟨rfl, rfl, rfl, rfl, values⟩ := vote_bytes_inj same
    simp [readBack, values]
  case proposal.proposal =>
    obtain ⟨rfl, rfl, rfl, rfl, rfl⟩ := proposal_bytes_inj same
    rfl
  case skip.skip =>
    obtain ⟨rfl, rfl, rfl⟩ := skip_bytes_inj same
    rfl
  case skipV2.skipV2 =>
    obtain ⟨rfl, rfl, rfl⟩ := skipV2_bytes_inj same
    rfl
  -- Inputs of two kinds have different formats.
  all_goals exact absurd sameFormat (by grind [format])

/-- One input is a vote without a value and the other the same vote for the empty text. -/
def Blurred (first second : SigningInput) : Prop :=
  ∃ attempt kind height round, (first = vote attempt kind height round none ∧
        second = vote attempt kind height round (some [])) ∨
      (first = vote attempt kind height round (some []) ∧ second = vote attempt kind height round none)

theorem Blurred.bytes_eq (blurred : Blurred first second) : first.bytes = second.bytes := by
  obtain ⟨-, -, -, -, ⟨rfl, rfl⟩ | ⟨rfl, rfl⟩⟩ := blurred <;> rfl

theorem Blurred.ne (blurred : Blurred first second) : first ≠ second := by
  obtain ⟨-, -, -, -, ⟨rfl, rfl⟩ | ⟨rfl, rfl⟩⟩ := blurred <;> simp

theorem eq_or_blurred (same : first.readBack = second.readBack) :
    first = second ∨ Blurred first second := by
  cases first <;> cases second <;> simp only [readBack, reduceCtorEq] at same
  case vote.vote attempt kind height round value _ _ _ _ value' =>
    simp only [vote.injEq, Option.some.injEq] at same
    obtain ⟨rfl, rfl, rfl, rfl, values⟩ := same
    cases value with
    | none =>
      cases value' with
      | none => exact Or.inl rfl
      | some text =>
        obtain rfl : [] = text := values
        exact Or.inr ⟨attempt, kind, height, round, Or.inl ⟨rfl, rfl⟩⟩
    | some text =>
      cases value' with
      | none =>
        obtain rfl : text = [] := values
        exact Or.inr ⟨attempt, kind, height, round, Or.inr ⟨rfl, rfl⟩⟩
      | some other =>
        obtain rfl : text = other := values
        exact Or.inl rfl
  all_goals exact Or.inl same

/-- Equal bytes mean equal inputs exactly for the pairs that are not a vote without a value
and the same vote for the empty text. -/
theorem signing_bytes_unambiguous_iff (first second : SigningInput) :
    (first.bytes = second.bytes → first = second) ↔ ¬ Blurred first second := by
  constructor
  · intro unambiguous blurred
    exact blurred.ne (unambiguous blurred.bytes_eq)
  · intro clear same
    exact (eq_or_blurred (readBack_eq same)).resolve_right clear

/-- A prevote for nothing is signed with the bytes of a prevote for the empty text. -/
theorem nil_vote_signs_empty_text : (vote 0 1 40000 0 none).bytes = (vote 0 1 40000 0 (some [])).bytes ∧
      vote 0 1 40000 0 none ≠ vote 0 1 40000 0 (some []) :=
  ⟨rfl, nofun⟩

end SigningInput

/-! ## The messages of the consensus model -/

def VoteKind.code : VoteKind → UInt8
  | .prevote => 1
  | .precommit => 2

namespace Message

/-- The input whose bytes stand for a message. -/
def input : Message → SigningInput
  | .vote attempt kind height round value =>
    .vote (.ofNat attempt) kind.code (.ofNat height) (.ofNat round) (some value)
  | .proposal attempt height round polRound value =>
    .proposal (.ofNat attempt) (.ofNat height) (.ofNat round) (polRound.map .ofNat) value
  | .skip height attempt locked =>
    .skip (.ofNat height) (.ofNat attempt) (locked.map fun lock => (.ofNat lock.1, lock.2))
  | .skipV2 height attempt locked =>
    .skipV2 (.ofNat height) (.ofNat attempt)
      (locked.map fun lock => (.ofNat lock.1, .ofNat lock.2.1, lock.2.2))

/-- The numbers of the message fit the widths they are written with. -/
def InRange : Message → Prop
  | .vote attempt _ height round _ => attempt ≤ maxU32 ∧ height ≤ maxU64 ∧ round ≤ maxU32
  | .proposal attempt height round polRound _ =>
    attempt ≤ maxU32 ∧ height ≤ maxU64 ∧ round ≤ maxU32 ∧ ∀ proof ∈ polRound, proof ≤ maxU32
  | .skip height attempt locked =>
    height ≤ maxU64 ∧ attempt ≤ maxU32 ∧ ∀ lock ∈ locked, lock.1 ≤ maxU32
  | .skipV2 height attempt locked =>
    height ≤ maxU64 ∧ attempt ≤ maxU32 ∧ ∀ lock ∈ locked, lock.1 ≤ maxU32 ∧ lock.2.1 ≤ maxU32

variable {number : Nat} {message : Message}

theorem toNat_ofNat32 (fits : number ≤ maxU32) : (UInt32.ofNat number).toNat = number :=
  UInt32.toNat_ofNat_of_lt' (Nat.lt_succ_of_le fits)

theorem toNat_ofNat64 (fits : number ≤ maxU64) : (UInt64.ofNat number).toNat = number :=
  UInt64.toNat_ofNat_of_lt' (Nat.lt_succ_of_le fits)

/-- The message that an input stands for. -/
def ofInput : SigningInput → Message
  | .vote attempt kind height round value =>
    .vote attempt.toNat (if kind = 1 then .prevote else .precommit) height.toNat round.toNat
      (value.getD [])
  | .proposal attempt height round polRound value =>
    .proposal attempt.toNat height.toNat round.toNat (polRound.map UInt32.toNat) value
  | .skip height attempt locked =>
    .skip height.toNat attempt.toNat (locked.map fun lock => (lock.1.toNat, lock.2))
  | .skipV2 height attempt locked =>
    .skipV2 height.toNat attempt.toNat (locked.map fun lock => (lock.1.toNat, lock.2.1.toNat, lock.2.2))

theorem map_back {α β : Type} {code : α → β} {back : β → α} {value : Option α}
    (same : ∀ a ∈ value, back (code a) = a) : (value.map code).map back = value := by
  cases value with
  | none => rfl
  | some a => exact congrArg some (same a rfl)

theorem ofInput_input (range : message.InRange) : ofInput message.input = message := by
  cases message with
  | vote attempt kind height round value =>
    rw [input, ofInput, toNat_ofNat32 range.1, toNat_ofNat64 range.2.1, toNat_ofNat32 range.2.2]
    cases kind <;> rfl
  | proposal attempt height round polRound value =>
    obtain ⟨attemptFits, heightFits, roundFits, proofFits⟩ := range
    rw [input, ofInput, toNat_ofNat32 attemptFits, toNat_ofNat64 heightFits,
      toNat_ofNat32 roundFits, map_back fun proof mem => toNat_ofNat32 (proofFits proof mem)]
  | skip height attempt locked =>
    obtain ⟨heightFits, attemptFits, lockFits⟩ := range
    rw [input, ofInput, toNat_ofNat32 attemptFits, toNat_ofNat64 heightFits, map_back]
    exact fun lock mem => congrArg (·, lock.2) (toNat_ofNat32 (lockFits lock mem))
  | skipV2 height attempt locked =>
    obtain ⟨heightFits, attemptFits, lockFits⟩ := range
    rw [input, ofInput, toNat_ofNat32 attemptFits, toNat_ofNat64 heightFits, map_back]
    intro lock mem
    obtain ⟨first, second⟩ := lockFits lock mem
    rw [toNat_ofNat32 first, toNat_ofNat32 second]

/-- The messages of the consensus model are as distinct as the bytes that are signed. -/
theorem message_bytes_injOn :
    Set.InjOn (fun message : Message => message.input.bytes) {message | message.InRange} := by
  intro message range other range' same
  have readSame := SigningInput.readBack_eq same
  have whole (message : Message) : message.input.readBack = message.input := by
    cases message <;> rfl
  rw [whole, whole] at readSame
  rw [← ofInput_input range, readSame, ofInput_input range']

end Message

end EgoChain.Consensus
