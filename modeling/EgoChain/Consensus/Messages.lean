import EgoChain.Consensus.Tendermint
import EgoChain.Foundations.Texts

/-!
# Signed consensus messages

The texts that committee members sign, and the value id a block's hash text
stands for.  A text is the list of its UTF-8 bytes.  A signature is ideal: it
verifies under the key of one address and for one message.

A vote for nothing is signed with an empty value, exactly as a vote for a block
with an empty hash would be.
-/

namespace EgoChain.Consensus

open EgoChain.Foundations

abbrev Address := Text

/-! ## Value ids -/

def ValueId.ofBytes (bytes : Text.Bytes32) : ValueId :=
  ⟨bytes.val.toArray, bytes.property⟩

/-- `hex::encode`. -/
def hexEncode (value : ValueId) : Text := Text.toHex value.toList

variable (height attempt : Nat) (blake3 : Text → ValueId)

/-- The 32 bytes a hash text spells, or else its digest. -/
def tmValueId (hash : Text) : ValueId :=
  ((Text.hex32 hash).map ValueId.ofBytes).getD (blake3 hash)

/-- A value's own digits name it. -/
theorem tmValueId_hexEncode (value : ValueId) : tmValueId blake3 (hexEncode value) = value := by
  unfold tmValueId hexEncode
  rw [Text.hex32_toHex ⟨value.toList, value.length_toList⟩]
  rfl

/-! ## Messages -/

/-- What a member signs.  Equal signing bytes are equal messages here. -/
inductive Message where
  | vote (attempt : Nat) (kind : VoteKind) (height round : Nat) (value : Text)
  | proposal (attempt height round : Nat) (polRound : Option Nat) (value : Text)
  | skip (height attempt : Nat) (locked : Option (Nat × Text))
  | skipV2 (height attempt : Nat) (locked : Option (Nat × Nat × Text))
  deriving DecidableEq

def tmVoteMessageAt (kind : VoteKind) (height round : Nat) (value : Option Text) : Message :=
  .vote attempt kind height round (value.getD [])

def tmProposalMessageAt (height round : Nat) (polRound : Option Nat) (value : Text) : Message :=
  .proposal attempt height round polRound value

def tmSkipMessage (locked : Option (Nat × Text)) : Message :=
  .skip height attempt locked

def tmSkipMessageV2 (locked : Option (Nat × Nat × Text)) : Message :=
  .skipV2 height attempt locked

structure Signature where
  signer : Address
  message : Message
  deriving DecidableEq

def tmSignatureOk (signer : Address) (message : Message) (signature : Signature) : Bool :=
  signature = ⟨signer, message⟩

theorem tmSignatureOk_iff {signer : Address} {message : Message} {signature : Signature} :
    tmSignatureOk signer message signature = true ↔ signature = ⟨signer, message⟩ := by
  simp [tmSignatureOk]

end EgoChain.Consensus
